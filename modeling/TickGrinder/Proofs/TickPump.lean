import TickGrinder.Proofs.EngineRuns

/-!
# The tick pump

The closure `start_backtest` hands to `for_each` counts each tick, delivers it, and only then
checks the exit test. So the ticks delivered are the stream up to and including the first tick
that meets the test, or the whole stream when none does: the tick that reaches `max_tick_n` or
`max_timestamp` is itself delivered, and with `max_tick_n = Some(0)` one tick still is.

Inside a running backtest the pump takes one tick per step of its engine, between the control
events its generator takes. Whatever the interleaving, the sink has then received a prefix of what
`tickPump` delivers from the whole stream, and all of it in every state once the closure has
returned `Err`, before and after `or_else` has sent `Stop`.
-/

namespace TickGrinder

/-- The exit test of `check_early_exit`, written out: the count `n` has reached `max_tick_n`, or
the tick's timestamp has reached `max_timestamp`. -/
def ExitsAt (d : BacktestDefinition) (n : ℕ) (t : Tick) : Prop :=
  (∃ k, d.maxTickN = some k ∧ k ≤ n) ∨ ∃ m, d.maxTimestamp = some m ∧ m ≤ t.timestamp

theorem checkEarlyExit_iff {t : Tick} {d : BacktestDefinition} {n : ℕ} :
    checkEarlyExit t d n = true ↔ ExitsAt d n t := by
  rcases hn : d.maxTickN with _ | k <;> rcases hm : d.maxTimestamp with _ | m <;>
    simp [checkEarlyExit, ExitsAt, hn, hm]

/-- The pump from the count `i`: either no tick meets the exit test and the whole stream is
delivered, or the first tick that meets it is the last delivered and the closure returns `Err`. -/
theorem tickPump_cases (d : BacktestDefinition) :
    ∀ (i : ℕ) (s : List Tick),
      ((∀ j (h : j < s.length), ¬ ExitsAt d (i + j + 1) s[j]) ∧ tickPump d i s = (s, false)) ∨
      ∃ j, ∃ h : j < s.length, ExitsAt d (i + j + 1) s[j] ∧
        (∀ k < j, ∀ hk : k < s.length, ¬ ExitsAt d (i + k + 1) s[k]) ∧
        tickPump d i s = (s.take (j + 1), true)
  | i, [] => .inl ⟨fun _ h => absurd h (Nat.not_lt_zero _), rfl⟩
  | i, t :: ts => by
    by_cases hx : checkEarlyExit t d (i + 1)
    · exact .inr ⟨0, by simp, checkEarlyExit_iff.1 hx, fun _ hk => absurd hk (Nat.not_lt_zero _),
        by simp [tickPump, pumpTick, hx]⟩
    have hnot : ¬ ExitsAt d (i + 1) t := fun h => hx (checkEarlyExit_iff.2 h)
    have hshift : ∀ k, i + (k + 1) + 1 = i + 1 + k + 1 := fun k => by omega
    have heq :
        tickPump d i (t :: ts) = (t :: (tickPump d (i + 1) ts).1, (tickPump d (i + 1) ts).2) := by
      simp [tickPump, pumpTick, hx]
    rcases tickPump_cases d (i + 1) ts with ⟨hall, hrun⟩ | ⟨j, hj, hexit, hbefore, hrun⟩
    · refine .inl ⟨fun j hj => ?_, by rw [heq, hrun]⟩
      cases j with
      | zero => simpa using hnot
      | succ j => simpa [hshift] using hall j (by simpa using hj)
    · refine .inr ⟨j + 1, by simpa using hj, by simpa [hshift] using hexit, fun k hk hk' => ?_,
        by rw [heq, hrun]; rfl⟩
      cases k with
      | zero => simpa using hnot
      | succ k => simpa [hshift] using hbefore k (by omega) (by simpa using hk')

/-- The ticks the tick pump hands to `dst.tick` over a finite stream: the whole stream when no
tick meets the exit test, and otherwise the stream through the first tick that meets it. -/
theorem tickPump_delivers_through_first_exit (d : BacktestDefinition) (s : List Tick) :
    ((∀ j (h : j < s.length), ¬ ExitsAt d (j + 1) s[j]) ∧ tickPump d 0 s = (s, false)) ∨
    ∃ j, ∃ h : j < s.length, ExitsAt d (j + 1) s[j] ∧
      (∀ k < j, ∀ hk : k < s.length, ¬ ExitsAt d (k + 1) s[k]) ∧
      tickPump d 0 s = (s.take (j + 1), true) := by
  simpa using tickPump_cases d 0 s

/-- With `max_tick_n = Some(0)` the pump still delivers a tick, and with timestamps that skip past
`max_timestamp` it delivers a tick beyond it. -/
theorem tickPump_overshoots_limits :
    (tickPump ⟨none, some 0, none, "TEST", .fast 0, .random, .null⟩ 0 [⟨1, 1, 1⟩]).1 =
      [⟨1, 1, 1⟩] ∧
    (tickPump ⟨none, none, some 2, "TEST", .fast 0, .random, .null⟩ 0 [⟨1, 1, 1⟩, ⟨1, 1, 3⟩]).1 =
      [⟨1, 1, 1⟩, ⟨1, 1, 3⟩] := by
  decide

/-! ## The pump inside a running backtest -/

namespace Engine

/-- What the sink of a backtest with the definition `d`, pumped from the stream `s₀`, has received,
by the state of its pump: while pumping from the count `i`, the pump's output from `s₀` is what it
has delivered followed by its output from the rest of the stream; once the closure has returned
`Err`, before and after `or_else` has sent `Stop`, it is exactly what was delivered; after the
stream has ended, what was delivered is a prefix of it. -/
def Pumped (d : BacktestDefinition) (s₀ : List Tick) (e : Engine) : Prop :=
  e.definition = d ∧
    match e.consumer with
    | .pump i => tickPump d 0 s₀ = (e.delivered ++ (tickPump d i e.stream).1, (tickPump d i e.stream).2)
    | .exiting | .exited => tickPump d 0 s₀ = (e.delivered, true)
    | .done => e.delivered <+: (tickPump d 0 s₀).1
    | .simBroker => e.delivered = []

variable {d : BacktestDefinition} {s₀ : List Tick} {e e' : Engine}

/-- `Pumped` reads only the definition, the consumer, what was delivered and, while pumping, the
stream. -/
theorem Pumped.congr (h : e.Pumped d s₀) (hd : e'.definition = e.definition)
    (hc : e'.consumer = e.consumer) (hl : e'.delivered = e.delivered)
    (hs : (∃ i, e.consumer = .pump i) → e'.stream = e.stream) : e'.Pumped d s₀ := by
  refine ⟨hd.trans h.1, ?_⟩
  have h2 := h.2
  rcases hce : e.consumer with _ | _ | _ | _ | _ <;> rw [hce] at h2 <;> rw [hc, hce, hl] <;> try exact h2
  rw [hs ⟨_, hce⟩]
  exact h2

theorem Pumped.halt (h : e.Pumped d s₀) : e.halt.Pumped d s₀ := by
  refine ⟨h.1, ?_⟩
  have h2 := h.2
  rcases hc : e.consumer with _ | _ | _ | _ | _ <;> rw [hc] at h2 <;> simp only [Engine.halt, hc]
  · rw [h2]; exact List.prefix_append _ _
  all_goals exact h2

theorem Pumped.send {c : BacktestCommand} (h : e.Pumped d s₀) (hs : e.send c = some e') :
    e'.Pumped d s₀ := by
  unfold Engine.send at hs
  split_ifs at hs <;> cases hs
  exacts [h, h.congr rfl rfl rfl fun _ => rfl]

theorem Pumped.consume (h : e.Pumped d s₀) (hs : e.consume = some e') : e'.Pumped d s₀ := by
  unfold Engine.consume at hs
  split_ifs at hs
  rcases hc : e.control with _ | ⟨_ | _ | _, cs⟩ <;> rw [hc] at hs <;> cases hs
  exacts [h.congr rfl rfl rfl fun _ => rfl, h.congr rfl rfl rfl fun _ => rfl, h.halt]

theorem Pumped.tick (h : e.Pumped d s₀) (hs : e.tick = some e') : e'.Pumped d s₀ := by
  unfold Engine.tick at hs
  split at hs <;> cases hs
  · rename_i t ts i _ hst hc
    refine ⟨h.1, ?_⟩
    have h2 := h.2
    rw [hc, hst] at h2
    dsimp only
    rw [h.1]
    by_cases hx : (pumpTick d i t).2 = true
    · have hp : tickPump d i (t :: ts) = ([t], true) := by simp [tickPump, hx]
      rw [if_pos hx, h2, hp]
    · have hp : tickPump d i (t :: ts) =
          (t :: (tickPump d (pumpTick d i t).1 ts).1, (tickPump d (pumpTick d i t).1 ts).2) := by
        simp [tickPump, hx]
      rw [if_neg hx, h2, hp]
      simp
  · rename_i hc
    exact h.congr rfl rfl rfl fun ⟨_, hi⟩ => absurd (hc.symm.trans hi) (by simp)

theorem Pumped.exitSend (h : e.Pumped d s₀) (hs : e.exitSend = some e') : e'.Pumped d s₀ := by
  unfold Engine.exitSend at hs
  split at hs
  · rename_i hc
    obtain ⟨e₁, hs₁, rfl⟩ := Option.map_eq_some'.1 hs
    have h₁ := h.send hs₁
    refine ⟨h₁.1, ?_⟩
    have h2 := h₁.2
    have hc₁ : e₁.consumer = .exiting := by
      unfold Engine.send at hs₁
      split_ifs at hs₁ <;> cases hs₁ <;> exact hc
    rw [hc₁] at h2
    exact h2
  · cases hs

theorem Pumped.finish (h : e.Pumped d s₀) (hs : e.finish = some e') : e'.Pumped d s₀ := by
  unfold Engine.finish at hs
  split_ifs at hs
  cases hs
  exact h.halt

theorem Pumped.step (s : Backtester.EngineStep) (h : e.Pumped d s₀) (hs : s.apply e = some e') :
    e'.Pumped d s₀ := by
  cases s
  exacts [h.consume hs, h.tick hs, h.exitSend hs, h.finish hs]

theorem Reaches.pumped {e₀ : Engine} (h₀ : e₀.Pumped d s₀) (h : e₀.Reaches e) : e.Pumped d s₀ := by
  induction h with
  | refl => exact h₀
  | send c _ hs ih => exact ih.send hs
  | step s _ hs ih => exact ih.step s hs

/-- Whatever control events a backtest pumped to a sink is sent and whatever steps it takes, its
sink has received a prefix of what the tick pump delivers from the whole stream, and all of it
in every state once the pump's closure has returned `Err`. -/
theorem Reaches.delivered_prefix {d : BacktestDefinition} {s₀ : List Tick}
    (h : Reaches ⟨d, .paused, [], s₀, .pump 0, []⟩ e) :
    e.delivered <+: (tickPump d 0 s₀).1 ∧
      (e.consumer = .exiting ∨ e.consumer = .exited → tickPump d 0 s₀ = (e.delivered, true)) := by
  have h₀ : Pumped d s₀ ⟨d, .paused, [], s₀, .pump 0, []⟩ := ⟨rfl, by simp⟩
  have hp := (h.pumped h₀).2
  refine ⟨?_, by rintro (hc | hc) <;> rw [hc] at hp <;> exact hp⟩
  rcases hc : e.consumer with _ | _ | _ | _ | _ <;> rw [hc] at hp
  · exact hp ▸ List.prefix_append _ _
  · exact hp ▸ List.prefix_refl _
  · exact hp ▸ List.prefix_refl _
  · exact hp
  · exact hp ▸ List.nil_prefix

end Engine

/-! ## The pump along the backtester's runs -/

namespace Backtester

variable {b b' : Backtester} {u : Uuid}

/-- A backtest whose ticks go to a sink starts paused with its whole stream and the pump's count
at zero. -/
theorem startBacktest_of_sink {d : BacktestDefinition} {ticks : List Tick}
    (hd : ∀ sb, d.dataDest ≠ .simBroker sb) :
    b.startBacktest d (.ok ticks) u = some (b.register d ticks (.pump 0) u, .ok u) := by
  unfold startBacktest
  rcases hdd : d.dataDest with _ | _ | _ | sb
  iterate 3 rfl
  exact absurd hdd (hd sb)

/-- In every run of the backtester that starts a backtest on the stream `ticks` with a sink for
its ticks, whatever events follow (pausing, resuming or stopping it, other backtests, its own steps
in any interleaving), its sink has received a prefix of what the tick pump delivers from the
whole stream, and all of it in every state once the pump's closure has returned `Err`. -/
theorem sink_receives_prefix_of_pump {d : BacktestDefinition} {ticks : List Tick}
    {evs : List Event} (hd : ∀ sb, d.dataDest ≠ .simBroker sb)
    (h : run b (.startBacktest d (.ok ticks) u :: evs) = some b') :
    ∃ e, b'.engines.lookup u = some e ∧ e.delivered <+: (tickPump d 0 ticks).1 ∧
      (e.consumer = .exiting ∨ e.consumer = .exited →
        tickPump d 0 ticks = (e.delivered, true)) := by
  obtain ⟨b₁, h₁, h₂⟩ := Option.bind_eq_some.1 h
  simp only [step] at h₁
  split_ifs at h₁
  rw [startBacktest_of_sink hd] at h₁
  cases h₁
  obtain ⟨e, he, hr⟩ := enginesReach_run h₂ u _ (AList.lookup_insert _)
  exact ⟨e, he, hr.delivered_prefix⟩

/-- A backtest on two ticks with `max_tick_n = Some(1)`, resumed: its pump delivers the first tick
and its closure returns `Err`. -/
theorem sink_receives_first_tick_of_two :
    ∃ b', run (new (Uuid.ofByte 1))
        [.startBacktest ⟨none, some 1, none, "TEST", .fast 0, .random, .null⟩
            (.ok [⟨1, 1, 1⟩, ⟨1, 1, 2⟩]) (Uuid.ofByte 2),
          .resumeBacktest (Uuid.ofByte 2), .consume (Uuid.ofByte 2), .tick (Uuid.ofByte 2)] =
        some b' ∧
      ∃ e, b'.engines.lookup (Uuid.ofByte 2) = some e ∧
        e.delivered <+: (tickPump ⟨none, some 1, none, "TEST", .fast 0, .random, .null⟩ 0
          [⟨1, 1, 1⟩, ⟨1, 1, 2⟩]).1 ∧
        (e.consumer = .exiting ∨ e.consumer = .exited →
          tickPump ⟨none, some 1, none, "TEST", .fast 0, .random, .null⟩ 0
            [⟨1, 1, 1⟩, ⟨1, 1, 2⟩] = (e.delivered, true)) := by
  obtain ⟨b', h⟩ : ∃ b', run (new (Uuid.ofByte 1))
      [.startBacktest ⟨none, some 1, none, "TEST", .fast 0, .random, .null⟩
          (.ok [⟨1, 1, 1⟩, ⟨1, 1, 2⟩]) (Uuid.ofByte 2),
        .resumeBacktest (Uuid.ofByte 2), .consume (Uuid.ofByte 2), .tick (Uuid.ofByte 2)] =
      some b' := ⟨_, rfl⟩
  exact ⟨b', h, sink_receives_prefix_of_pump (fun _ h => by cases h) h⟩

end Backtester

end TickGrinder
