import TickGrinder.Backtester

/-!
# Backtest handles

`running_backtests` changes in two places only: `start_backtest` inserts the uuid it returns, and
`StopBacktest` removes a handle after forwarding `Stop`. So in every reachable state every key
names a started backtest, and a running or paused backtest that has no key has a `Stop` waiting
on its control channel. The converse the spec states fails: a backtest that stops by its exit
predicate or the end of its stream keeps its handle, and after `StopBacktest` is acknowledged the
backtest runs on until its generator takes the `Stop`.
-/

namespace TickGrinder

variable {e e' : Engine} {c : BacktestCommand}

namespace Engine

/-- A `Stop` is on its way to a generator that has not ended. -/
def StopPending (e : Engine) : Prop := e.phase ≠ .stopped → .stop ∈ e.control

theorem send_spec (h : e.send c = some e') :
    e'.phase = e.phase ∧ (∀ x ∈ e.control, x ∈ e'.control) ∧
      (e.phase ≠ .stopped → c ∈ e'.control) := by
  unfold send at h
  split_ifs at h with h1 h2 <;> cases h
  · exact ⟨rfl, fun _ hx => hx, fun h => absurd h1 h⟩
  · exact ⟨rfl, fun _ hx => List.mem_append_left _ hx, fun _ => by simp⟩

theorem StopPending.send (hp : e.StopPending) (h : e.send c = some e') : e'.StopPending := by
  obtain ⟨hph, hctl, -⟩ := send_spec h
  exact fun hs => hctl _ (hp (hph ▸ hs))

theorem stopPending_of_send_stop (h : e.send .stop = some e') : e'.StopPending := by
  obtain ⟨hph, -, hstop⟩ := send_spec h
  exact fun hs => hstop (hph ▸ hs)

theorem stopPending_halt (e : Engine) : e.halt.StopPending := fun h => absurd rfl h

theorem StopPending.consume (hp : e.StopPending) (h : e.consume = some e') : e'.StopPending := by
  unfold Engine.consume at h
  split_ifs at h with hs
  rcases hc : e.control with _ | ⟨x, cs⟩ <;> rw [hc] at h
  · cases h
  have hpend : x = .stop ∨ .stop ∈ cs := by simpa [hc, eq_comm] using hp hs
  cases x <;> cases h
  · exact fun _ => hpend.resolve_left nofun
  · exact fun _ => hpend.resolve_left nofun
  · exact stopPending_halt e

theorem StopPending.tick (hp : e.StopPending) (h : e.tick = some e') : e'.StopPending := by
  unfold Engine.tick at h
  split at h <;> cases h <;> exact hp

theorem StopPending.exitSend (hp : e.StopPending) (h : e.exitSend = some e') : e'.StopPending := by
  unfold Engine.exitSend at h
  split at h
  · obtain ⟨e'', hs, rfl⟩ := Option.map_eq_some'.1 h
    have h' := hp.send hs
    exact h'
  · cases h

theorem StopPending.finish (h : e.finish = some e') : e'.StopPending := by
  unfold Engine.finish at h
  split_ifs at h
  cases h
  exact stopPending_halt e

end Engine

namespace Backtester

variable {b b' : Backtester} {u : Uuid}

/-- What every reachable backtester keeps: each key names a started backtest, and a backtest
without a key has a `Stop` on its way. -/
structure Inv (b : Backtester) : Prop where
  started : ∀ u ∈ b.runningBacktests, u ∈ b.engines
  stopping : ∀ u e, b.engines.lookup u = some e → u ∉ b.runningBacktests → e.StopPending

theorem inv_new (u : Uuid) : (new u).Inv :=
  ⟨fun _ h => absurd h (AList.not_mem_empty _), fun _ _ h => by simp [new] at h⟩

/-- Replacing the engine under `u` keeps the invariant when the new engine keeps a `Stop` the
old one was waiting for. -/
theorem Inv.update (hi : b.Inv) (he : b.engines.lookup u = some e)
    (hp : u ∉ b.runningBacktests → e.StopPending → e'.StopPending) :
    { b with engines := b.engines.insert u e' }.Inv := by
  refine ⟨fun v hv => AList.mem_insert _ |>.2 (.inr (hi.started v hv)), fun v ev hv hk => ?_⟩
  by_cases hvu : v = u
  · subst hvu
    simp only [AList.lookup_insert, Option.some.injEq] at hv
    exact hv ▸ hp hk (hi.stopping v e he hk)
  · exact hi.stopping v ev (by simpa [AList.lookup_insert_ne hvu] using hv) hk

theorem Inv.removeBacktest (hi : b.Inv) (hu : ∀ e, b.engines.lookup u = some e → e.StopPending) :
    (b.removeBacktest u).Inv := by
  refine ⟨fun v hv => hi.started v (AList.mem_erase.1 hv).2, fun v ev hv hk => ?_⟩
  by_cases hvu : v = u
  · exact hu ev (hvu ▸ hv)
  · exact hi.stopping v ev hv fun h => hk (AList.mem_erase.2 ⟨hvu, h⟩)

theorem Inv.register (hi : b.Inv) (d : BacktestDefinition) (ticks : List Tick) (c : Consumer) :
    (b.register d ticks c u).Inv := by
  refine ⟨fun v hv => ?_, fun v ev hv hk => ?_⟩
  · rcases (AList.mem_insert _).1 hv with rfl | hv
    · exact (AList.mem_insert _).2 (.inl rfl)
    · exact (AList.mem_insert _).2 (.inr (hi.started v hv))
  · have hvu : v ≠ u := fun h => hk ((AList.mem_insert _).2 (.inl h))
    exact hi.stopping v ev (by simpa [Backtester.register, AList.lookup_insert_ne hvu] using hv)
      fun h => hk ((AList.mem_insert _).2 (.inr h))

theorem register_runningBacktests (d : BacktestDefinition) (ticks : List Tick) (c : Consumer) :
    (b.register d ticks c u).runningBacktests =
      b.runningBacktests.insert u ⟨d.symbol, d.backtestType, d.dataSource, d.dataDest⟩ := rfl

/-- What `start_backtest` can do: fail and change nothing, or register the drawn uuid. -/
theorem startBacktest_cases {d : BacktestDefinition} {ts : Except String (List Tick)}
    {r : Except String Uuid} (h : b.startBacktest d ts u = some (b', r)) :
    (∃ msg, r = .error msg ∧ b' = b) ∨
    (r = .ok u ∧ ∃ (b₀ : Backtester) (ticks : List Tick) (c : Consumer),
      b₀.runningBacktests = b.runningBacktests ∧ b₀.engines = b.engines ∧
      b' = b₀.register d ticks c u) := by
  unfold startBacktest at h
  split at h
  · cases h; exact .inl ⟨_, rfl, rfl⟩
  split at h
  · split at h
    · cases h; exact .inl ⟨_, rfl, rfl⟩
    · split at h
      · cases h
      · cases h
        exact .inr ⟨rfl, { b with simbrokers := b.simbrokers.insert _ _ }, _, _, rfl, rfl, rfl⟩
  · cases h; exact .inr ⟨rfl, b, _, _, rfl, rfl, rfl⟩

theorem Inv.startBacktest {d : BacktestDefinition} {ts : Except String (List Tick)}
    {r : Except String Uuid} (hi : b.Inv) (h : b.startBacktest d ts u = some (b', r)) : b'.Inv := by
  rcases startBacktest_cases h with ⟨-, -, rfl⟩ | ⟨-, b₀, ticks, c, hk, he, rfl⟩
  · exact hi
  · exact Inv.register ⟨hk ▸ he ▸ hi.started, he ▸ hk ▸ hi.stopping⟩ d ticks c

/-- What `send_backtest_cmd` can do: answer `Err` for an unknown uuid, or forward the event to the
engine under it. -/
theorem sendBacktestCmd_cases {r : Except Unit Unit} (h : b.sendBacktestCmd u c = some (b', r)) :
    (u ∉ b.runningBacktests ∧ r = .error () ∧ b' = b) ∨
    (u ∈ b.runningBacktests ∧ r = .ok () ∧
      (b.engines.lookup u = none ∧ b' = b ∨
        ∃ e e', b.engines.lookup u = some e ∧ e.send c = some e' ∧
          b' = { b with engines := b.engines.insert u e' })) := by
  unfold sendBacktestCmd at h
  split at h
  · cases h; exact .inl ⟨AList.lookup_eq_none.1 ‹_›, rfl, rfl⟩
  · rename_i hk
    have hmem : u ∈ b.runningBacktests := AList.lookup_isSome.1 (by simp [hk])
    split at h
    · cases h; exact .inr ⟨hmem, rfl, .inl ⟨‹_›, rfl⟩⟩
    · obtain ⟨e', hs, he⟩ := Option.map_eq_some'.1 h
      cases he
      exact .inr ⟨hmem, rfl, .inr ⟨_, e', ‹_›, hs, rfl⟩⟩

theorem sendBacktestCmd_spec {r : Except Unit Unit} (h : b.sendBacktestCmd u c = some (b', r)) :
    (b.Inv → b'.Inv) ∧ b'.runningBacktests = b.runningBacktests := by
  rcases sendBacktestCmd_cases h with ⟨-, -, rfl⟩ | ⟨-, -, ⟨-, rfl⟩ | ⟨e, e', he, hs, rfl⟩⟩
  · exact ⟨id, rfl⟩
  · exact ⟨id, rfl⟩
  · exact ⟨fun hi => hi.update he fun _ hp => hp.send hs, rfl⟩

theorem forwardBacktestCmd_spec {r : Response} (h : b.forwardBacktestCmd u c = some (b', r)) :
    (b.Inv → b'.Inv) ∧ b'.runningBacktests = b.runningBacktests := by
  obtain ⟨⟨b₁, r₁⟩, hs, hb⟩ := Option.map_eq_some'.1 h
  have := sendBacktestCmd_spec hs
  cases r₁ <;> cases hb <;> exact this

theorem Inv.stopBacktest {r : Response} (hi : b.Inv) (h : b.stopBacktest u = some (b', r)) :
    b'.Inv := by
  obtain ⟨⟨b₁, r₁⟩, hs, hb⟩ := Option.map_eq_some'.1 h
  rcases sendBacktestCmd_cases hs with
      ⟨-, rfl, rfl⟩ | ⟨-, rfl, ⟨he, rfl⟩ | ⟨e, e', he, hsend, rfl⟩⟩ <;>
    cases hb
  · exact hi
  · exact hi.removeBacktest fun _ h => by simp [he] at h
  · refine (hi.update he fun _ hp => hp.send hsend).removeBacktest fun ev hev => ?_
    simp only [AList.lookup_insert, Option.some.injEq] at hev
    exact hev ▸ Engine.stopPending_of_send_stop hsend

theorem erase_of_not_mem {m : AList fun _ : Uuid => BacktestHandle} (h : u ∉ m) : m.erase u = m :=
  AList.ext (List.kerase_of_not_mem_keys h)

/-- `StopBacktest` removes exactly its uuid's handle, and answers `Ok` exactly when there was
one. -/
theorem stopBacktest_spec {r : Response} (h : b.stopBacktest u = some (b', r)) :
    b'.runningBacktests = b.runningBacktests.erase u ∧ (r = .ok ↔ u ∈ b.runningBacktests) := by
  obtain ⟨⟨b₁, r₁⟩, hs, hb⟩ := Option.map_eq_some'.1 h
  rcases sendBacktestCmd_cases hs with ⟨hu, rfl, rfl⟩ | ⟨hu, rfl, ⟨_, rfl⟩ | ⟨_, _, _, _, rfl⟩⟩ <;>
    cases hb
  · exact ⟨(erase_of_not_mem hu).symm, by simp [hu]⟩
  · exact ⟨rfl, by simp [hu]⟩
  · exact ⟨rfl, by simp [hu]⟩

theorem stepEngine_cases {f : Engine → Option Engine} (h : b.stepEngine u f = some b') :
    ∃ e e', b.engines.lookup u = some e ∧ f e = some e' ∧
      b' = { b with engines := b.engines.insert u e' } := by
  simp only [stepEngine, Option.bind_eq_bind, Option.bind_eq_some, Option.pure_def,
    Option.some.injEq] at h
  obtain ⟨e, he, e', hf, rfl⟩ := h
  exact ⟨e, e', he, hf, rfl⟩

theorem stepEngine_spec {f : Engine → Option Engine}
    (hf : ∀ e e', f e = some e' → e.StopPending → e'.StopPending)
    (h : b.stepEngine u f = some b') :
    (b.Inv → b'.Inv) ∧ b'.runningBacktests = b.runningBacktests := by
  obtain ⟨e, e', he, hfe, rfl⟩ := stepEngine_cases h
  exact ⟨fun hi => hi.update he fun _ => hf e e' hfe, rfl⟩

/-- Every event keeps the invariant; only starting and stopping a backtest touch the handles. -/
theorem step_spec {ev : Event} (h : step b ev = some b') :
    (b.Inv → b'.Inv) ∧ ((∀ d ts u, ev ≠ .startBacktest d ts u) → (∀ u, ev ≠ .stopBacktest u) →
      b'.runningBacktests = b.runningBacktests) := by
  cases ev with
  | startBacktest d ts u =>
    simp only [step] at h
    split_ifs at h
    obtain ⟨⟨b₁, r⟩, hs, rfl⟩ := Option.map_eq_some'.1 h
    exact ⟨fun hi => hi.startBacktest hs, fun h => absurd rfl (h d ts u)⟩
  | pauseBacktest u | resumeBacktest u =>
    obtain ⟨⟨b₁, r⟩, hs, rfl⟩ := Option.map_eq_some'.1 h
    exact (forwardBacktestCmd_spec hs).imp_right fun h _ _ => h
  | stopBacktest u =>
    obtain ⟨⟨b₁, r⟩, hs, rfl⟩ := Option.map_eq_some'.1 h
    exact ⟨fun hi => hi.stopBacktest hs, fun _ h => absurd rfl (h u)⟩
  | spawnSimbroker u =>
    simp only [step] at h
    split_ifs at h
    cases h
    exact ⟨fun hi => ⟨hi.started, hi.stopping⟩, fun _ _ => rfl⟩
  | consume u => exact (stepEngine_spec (fun _ _ h hp => hp.consume h) h).imp_right fun h _ _ => h
  | tick u => exact (stepEngine_spec (fun _ _ h hp => hp.tick h) h).imp_right fun h _ _ => h
  | exitSend u => exact (stepEngine_spec (fun _ _ h hp => hp.exitSend h) h).imp_right fun h _ _ => h
  | finish u =>
    exact (stepEngine_spec (fun _ _ h _ => Engine.StopPending.finish h) h).imp_right fun h _ _ => h

theorem Inv.run {evs : List Event} (hi : b.Inv) (h : run b evs = some b') : b'.Inv := by
  induction evs generalizing b with
  | nil => cases h; exact hi
  | cons ev evs ih =>
    obtain ⟨b₁, h₁, h₂⟩ := Option.bind_eq_some.1 h
    exact ih ((step_spec h₁).1 hi) h₂

/-- In every run, `start_backtest` inserts its uuid exactly when it returns `Ok` and changes
nothing when it returns `Err`; `StopBacktest` removes its uuid's handle; no other event touches the
handles. So every key names a started backtest, and a running or paused backtest without a key has
a `Stop` waiting on its control channel. -/
theorem running_backtests_track_starts_and_stops :
    (∀ u evs (b : Backtester), run (new u) evs = some b →
      (∀ v ∈ b.runningBacktests, v ∈ b.engines) ∧
      ∀ v e, b.engines.lookup v = some e → e.phase ≠ .stopped →
        v ∈ b.runningBacktests ∨ .stop ∈ e.control) ∧
    (∀ (b : Backtester) d ts u b' r, b.startBacktest d ts u = some (b', r) →
      (r = .ok u ∧ b'.runningBacktests =
        b.runningBacktests.insert u ⟨d.symbol, d.backtestType, d.dataSource, d.dataDest⟩) ∨
      (∃ msg, r = .error msg ∧ b' = b)) ∧
    (∀ (b : Backtester) u b' r, b.stopBacktest u = some (b', r) →
      b'.runningBacktests = b.runningBacktests.erase u ∧ (r = .ok ↔ u ∈ b.runningBacktests)) ∧
    (∀ b ev b', step b ev = some b' → (∀ d ts u, ev ≠ .startBacktest d ts u) →
      (∀ u, ev ≠ .stopBacktest u) → b'.runningBacktests = b.runningBacktests) := by
  refine ⟨fun u evs b h => ?_, fun b d ts u b' r h => ?_, fun _ _ _ _ h => stopBacktest_spec h,
    fun _ _ _ h => (step_spec h).2⟩
  · have hi := (inv_new u).run h
    exact ⟨hi.started, fun v e he hs => or_iff_not_imp_left.2 fun hk => hi.stopping v e he hk hs⟩
  · rcases startBacktest_cases h with ⟨msg, rfl, rfl⟩ | ⟨rfl, b₀, ticks, c, hk, -, rfl⟩
    · exact .inr ⟨msg, rfl, rfl⟩
    · exact .inl ⟨rfl, by rw [register_runningBacktests, hk]⟩

/-- A backtest stopped by its exit predicate keeps its handle, and a backtest whose `StopBacktest`
has been acknowledged is still paused, without a handle, until its generator takes the `Stop`. -/
theorem handles_diverge_from_liveness :
    ((run (new (Uuid.ofByte 0))
      [.startBacktest ⟨none, some 1, none, "TEST", .fast 0, .random, .null⟩
        (.ok [⟨1, 1, 1⟩, ⟨1, 1, 2⟩]) (Uuid.ofByte 1),
       .resumeBacktest (Uuid.ofByte 1), .consume (Uuid.ofByte 1), .tick (Uuid.ofByte 1),
       .exitSend (Uuid.ofByte 1), .consume (Uuid.ofByte 1)]).map fun b =>
      (decide (Uuid.ofByte 1 ∈ b.runningBacktests),
        (b.engines.lookup (Uuid.ofByte 1)).map Engine.phase)) = some (true, some .stopped) ∧
    ((run (new (Uuid.ofByte 0))
      [.startBacktest ⟨none, none, none, "TEST", .fast 0, .random, .null⟩
        (.ok [⟨1, 1, 1⟩]) (Uuid.ofByte 1),
       .stopBacktest (Uuid.ofByte 1)]).map fun b =>
      (decide (Uuid.ofByte 1 ∈ b.runningBacktests),
        (b.engines.lookup (Uuid.ofByte 1)).map Engine.phase)) = some (false, some .paused) := by
  decide

end Backtester

end TickGrinder
