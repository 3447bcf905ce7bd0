import TickGrinder.Tick

/-!
# The simple moving average

`SimpleMovingAverage` from `tick_parser/src/calc/sma.rs`: a deque of ticks, oldest at the front,
the period, and `ref_tick`, the last tick trimmed off the front or the null tick. The deque is a
list whose head is the front.

`push` and `push_tick` share their first half, asserting the order, pushing the tick on the back
and trimming when the deque is overflown (`enqueue`); they differ in what they return. `average`
and `average_tick` run the same loop over the deque for different prices: the mid for `average`,
the bid and the ask for `average_tick`, whose one loop keeps the two sums beside one time sum.
-/

namespace TickGrinder

structure SimpleMovingAverage where
  period : ℕ
  ticks : List Tick
  refTick : Tick
deriving DecidableEq, Repr

namespace SimpleMovingAverage

variable (lim : Option ℕ)

def new (period : ℕ) : SimpleMovingAverage := ⟨period, [], Tick.null⟩

/-- `is_overflown`: the span from the front to the back of the deque is at least the period.
It unwraps both ends, so it panics on an empty deque. -/
def isOverflown (period : ℕ) (ticks : List Tick) : Option Bool := do
  let back ← ticks.getLast?
  let front ← ticks.head?
  let diff ← checkedSub back.timestamp front.timestamp
  pure (decide (period ≤ diff))

/-- The loop of `trim`: while the deque is overflown, pop its front into `t`. On an empty deque
`is_overflown` panics. -/
def trimLoop (period : ℕ) (t : Tick) : List Tick → Option (List Tick × Tick)
  | [] => none
  | x :: xs => do
    if ← isOverflown period (x :: xs) then trimLoop period x xs else pure (x :: xs, t)

/-- `trim`: the deque with its out-of-range front removed, and the last tick removed. -/
def trim (s : SimpleMovingAverage) : Option (SimpleMovingAverage × Tick) := do
  let (ticks, t) ← trimLoop s.period Tick.null s.ticks
  pure ({ s with ticks }, t)

/-- The assertion opening `push` and `push_tick`: the new tick is newer than the back. -/
def assertOrdered (ticks : List Tick) (t : Tick) : Option Unit :=
  match ticks.getLast? with
  | some last => if last.timestamp < t.timestamp then pure () else none
  | none => pure ()

/-- The first half of `push` and `push_tick`. -/
def enqueue (s : SimpleMovingAverage) (t : Tick) : Option SimpleMovingAverage := do
  assertOrdered s.ticks t
  let s := { s with ticks := s.ticks ++ [t] }
  if ← isOverflown s.period s.ticks then
    let (s, ref) ← s.trim
    pure { s with refTick := ref }
  else pure s

/-- The loop of `average` and `average_tick`, oldest tick first: for each tick after the front,
`price last_tick * t_diff` is added to the price sum and `t_diff` to `t_sum`. -/
def sumLoop (price : Tick → Option ℕ) : Tick → List Tick → ℕ → ℕ → Option (ℕ × ℕ)
  | _, [], pSum, tSum => some (pSum, tSum)
  | last, t :: ts, pSum, tSum => do
    let tDiff ← checkedSub t.timestamp last.timestamp
    let p ← price last
    let pt ← checkedMul lim p tDiff
    let pSum ← checkedAdd lim pSum pt
    let tSum ← checkedAdd lim tSum tDiff
    sumLoop price t ts pSum tSum

/-- `average` for the prices `price`: the loop, then, if `ref_tick` is set (its bid is not 0),
its price over the rest of the period, `period - t_sum`, with `t_sum` set to the period. -/
def weightedAverage (price : Tick → Option ℕ) (s : SimpleMovingAverage) : Option ℕ := do
  let front ← s.ticks.head?
  let (pSum, tSum) ← sumLoop lim price front s.ticks.tail 0 0
  if s.refTick.bid ≠ 0 then
    let oldTime ← checkedSub s.period tSum
    let r ← price s.refTick
    let o ← checkedMul lim oldTime r
    let pSum ← checkedAdd lim pSum o
    checkedDiv pSum s.period
  else checkedDiv pSum tSum

def average (s : SimpleMovingAverage) : Option ℕ :=
  s.weightedAverage lim (Tick.mid lim)

def averageTick (s : SimpleMovingAverage) : Option Tick := do
  let bid ← s.weightedAverage lim fun t => some t.bid
  let ask ← s.weightedAverage lim fun t => some t.ask
  let back ← s.ticks.getLast?
  pure ⟨bid, ask, back.timestamp⟩

/-- `push`: the mid of the only tick left, or the average. -/
def push (s : SimpleMovingAverage) (t : Tick) : Option (SimpleMovingAverage × ℕ) := do
  let s ← s.enqueue t
  match s.ticks with
  | [x] => (s, ·) <$> x.mid lim
  | _ => (s, ·) <$> s.average lim

/-- `push_tick`: the only tick left, or the average tick. -/
def pushTick (s : SimpleMovingAverage) (t : Tick) : Option (SimpleMovingAverage × Tick) := do
  let s ← s.enqueue t
  match s.ticks with
  | [x] => pure (s, x)
  | _ => (s, ·) <$> s.averageTick lim

end SimpleMovingAverage

/-! ## Runs of pushes -/

/-- A call on the SMA, `push` or `push_tick`. -/
inductive Call where
  | push (t : Tick)
  | pushTick (t : Tick)
deriving DecidableEq, Repr

/-- What a call returns. -/
inductive Reply where
  | avg (v : ℕ)
  | tick (t : Tick)
deriving DecidableEq, Repr

def Call.tick : Call → Tick
  | .push t => t
  | .pushTick t => t

namespace SimpleMovingAverage

variable (lim : Option ℕ)

def call (s : SimpleMovingAverage) : Call → Option (SimpleMovingAverage × Reply)
  | .push t => (fun (s, v) => (s, .avg v)) <$> s.push lim t
  | .pushTick t => (fun (s, t) => (s, .tick t)) <$> s.pushTick lim t

/-- A run of calls, in order, with their replies. -/
def run (s : SimpleMovingAverage) : List Call → Option (SimpleMovingAverage × List Reply)
  | [] => some (s, [])
  | c :: cs => do
    let (s, r) ← s.call lim c
    let (s, rs) ← s.run cs
    pure (s, r :: rs)

end SimpleMovingAverage

/-! ## `SMAList` -/

/-- `SMAList`: the SMAs a tick parser keeps, one per `AddSMA`. -/
structure SMAList where
  smas : List SimpleMovingAverage
deriving DecidableEq, Repr

namespace SMAList

variable (lim : Option ℕ)

def new : SMAList := ⟨[]⟩

/-- `push_all`: push the tick into every SMA in turn, dropping what `push` returns. -/
def pushAll (l : SMAList) (t : Tick) : Option SMAList :=
  SMAList.mk <$> l.smas.mapM fun s => Prod.fst <$> s.push lim t

/-- `add`: any period is accepted. -/
def add (l : SMAList) (period : ℕ) : SMAList := ⟨l.smas ++ [SimpleMovingAverage.new period]⟩

/-- The loop of `remove`: drop the first SMA with the period; none is only a warning. -/
def removeFirst (period : ℕ) : List SimpleMovingAverage → List SimpleMovingAverage
  | [] => []
  | s :: ss => if s.period = period then ss else s :: removeFirst period ss

def remove (l : SMAList) (period : ℕ) : SMAList := ⟨removeFirst period l.smas⟩

/-- A call on an `SMAList`: `add`, `remove` or `push_all`. -/
inductive Op where
  | add (period : ℕ)
  | remove (period : ℕ)
  | pushAll (t : Tick)
deriving DecidableEq, Repr

/-- The tick a call pushes. -/
def Op.tick? : Op → Option Tick
  | .pushAll t => some t
  | _ => none

def apply (l : SMAList) : Op → Option SMAList
  | .add period => some (l.add period)
  | .remove period => some (l.remove period)
  | .pushAll t => l.pushAll lim t

/-- A sequence of calls, in order; `none` when one of them panics. -/
def run (l : SMAList) : List Op → Option SMAList
  | [] => some l
  | o :: os => (l.apply lim o).bind fun l => l.run os

end SMAList

end TickGrinder
