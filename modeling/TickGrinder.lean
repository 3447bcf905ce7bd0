import TickGrinder.Tick
import TickGrinder.Sma
import TickGrinder.Proofs.SmaWindow
import TickGrinder.Proofs.SmaAverage
import TickGrinder.Proofs.SmaRun
import TickGrinder.Proofs.SmaOverflow
import TickGrinder.Proofs.SmaTwap
import TickGrinder.Proofs.SmaRange
import TickGrinder.Proofs.SmaConstant
import TickGrinder.Proofs.SmaShift
import TickGrinder.Proofs.SmaDelay
import TickGrinder.Proofs.SmaMonotone
import TickGrinder.Proofs.SmaList
import TickGrinder.Uuid
import TickGrinder.Commands
import TickGrinder.Json
import TickGrinder.Proofs.JsonRoundTrip
import TickGrinder.Codec
import TickGrinder.Proofs.CodecRoundTrip
import TickGrinder.Proofs.CodecAccepts
import TickGrinder.Backtester
import TickGrinder.Proofs.BacktestHandles
import TickGrinder.Proofs.EngineRuns
import TickGrinder.Proofs.TickPump
import TickGrinder.Proofs.SimBrokers
import TickGrinder.Proofs.ResumedBacktest
import TickGrinder.Proofs.PausedBacktest
import TickGrinder.Proofs.StoppedBacktest
import TickGrinder.Proofs.BacktestIsolation
import TickGrinder.Spawner
import TickGrinder.Proofs.Heartbeat
import TickGrinder.Proofs.Listeners
import TickGrinder.Proofs.Census
