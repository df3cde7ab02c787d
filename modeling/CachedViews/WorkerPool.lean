import CachedViews.Indexing

/-!
A pool of workers over one queue. Each worker wakes at every tick of the poll interval
and drains what is visible.
-/
namespace CachedViews

namespace WorkerPool

/-- A pool has at least one worker. -/
def workers (engine : Engine) : Nat := max engine.pipeline.workerCount 1

/-- One worker drains the queue; a batch that fails ends its turn. -/
def drain (engine : Engine) : Action Unit :=
  tryCatch (discard (Indexing.runUntilIdle engine)) fun _ =>
    Action.count fun metrics => { metrics with errors := metrics.errors + 1 }

def moveClock (now : Instant) : Action Unit := modify fun world => { world with now }

/-- Ticks from the start of a span to its end, both included. -/
def ticks (interval span : Duration) : Nat :=
  if interval.isZero then 0 else span.nanos / interval.nanos + 1

def tick (engine : Engine) (now : Instant) : Action Unit := do
  moveClock now
  (List.range (workers engine)).forM fun _ => drain engine

/-- Runs the pool for a span of time. -/
def run (engine : Engine) (span : Duration) : Action Metrics := do
  let started := (← get).now
  let interval := engine.pipeline.pollInterval
  (List.range (ticks interval span)).forM fun i =>
    tick engine (started.add ⟨i * interval.nanos⟩)
  moveClock (started.add span)
  return (← get).metrics

end WorkerPool

end CachedViews
