import Mathlib.Data.List.AList
import Mathlib.Logic.Function.Basic
import NxCacheServer.Server.Task

/-!
# The existence cache for GET

`src/server/probe_cache.rs`. The first part is the data: slots, their
liveness, the map, `slot`, `mark_present` and `sweep`. The second part is the
callers: who holds which slot, who waits on its `OnceCell`, who runs the probe
(`call`, `poll`, `finish`, `cancel`), which is tokio's `get_or_try_init` on a
cell with one permit and a fair queue. `present` and `markPresent` at the end
are the source's functions as tasks.

A slot stays in `arena` when the map drops or replaces it: callers hold it
through their own `Arc<Slot>`.

Mirroring notes:
- The map goes to identities and not to slots, so two callers share a slot exactly
  if they have the same `SlotId`.
- `sweep` keeps what is live and nothing else. The comment at `SWEEP_THRESHOLD` is
  about slots that are expired and resolved; `retain` only asks for `live`.
- The semaphore of a `OnceCell` has one permit and serves its waiters in the order
  they came in. A value closes it, and everybody in the queue gets the value.
- A caller that is dropped leaves the queue, wherever it stands (`cancel`). If it was
  running the closure, the permit goes to the next one.
- Two polls of one caller in the queue make no difference, so a poll that changes
  nothing is not a step.
-/

namespace NxCacheServer.Server

open NxCacheServer.Domain NxCacheServer.Lib

/-- How long an *absent* result is trusted. -/
def negativeTtl : Duration := fromSecs 5

/-- How long a *present* result is trusted. -/
def positiveTtl : Duration := fromSecs 60

/-- How long an *unresolved* slot is kept for coalescing. -/
def unresolvedTtl : Duration := fromSecs 60

/-- Cap on retained slots. -/
def sweepThreshold : Nat := 10000

/-- A request, as the cache sees it. -/
abbrev CallerId := Nat

/-- `tokio::sync::OnceCell<bool>`: its value, and the callers in the queue of
its one-permit semaphore, first come first served. The head holds the permit. -/
structure OnceCell where
  value : Option Bool
  queue : List CallerId
  deriving DecidableEq, Repr

/-- `c` leaves the queue; its permit, if it holds it, goes to the next. -/
def OnceCell.leave (cell : OnceCell) (c : CallerId) : OnceCell :=
  { cell with queue := cell.queue.erase c }

/-- The closure of `c` ends: a value initialises the cell and closes the
semaphore, so nobody queues on it any more; an `Err` only releases the permit. -/
def OnceCell.settle (cell : OnceCell) (c : CallerId) : Option Bool → OnceCell
  | some v => ⟨some v, []⟩
  | none => cell.leave c

/-- A slot. `hash` is the key it was made for, which the source keeps only as
the key of the map. -/
structure Slot where
  hash : Hash
  present : OnceCell
  created : Instant
  deriving DecidableEq, Repr

/-- Usable while its result is still fresh, or while its probe is plausibly
still in flight. The age saturates at zero. -/
def Slot.live (slot : Slot) (now : Instant) : Bool :=
  let age := now - slot.created
  match slot.present.value with
  | none => age < unresolvedTtl
  | some true => age < positiveTtl
  | some false => age < negativeTtl

/-- Where a caller of `present` stands. -/
inductive Phase
  /-- It has its slot and has not entered `get_or_try_init` yet. -/
  | holding (slot : SlotId)
  /-- It waits in the queue of the slot's semaphore. -/
  | queued (slot : SlotId)
  /-- It holds the permit and runs its closure since the given instant. -/
  | probing (slot : SlotId) (since : Instant)
  deriving DecidableEq, Repr

/-- The slot a caller is on. -/
def Phase.slot : Phase → SlotId
  | .holding s => s
  | .queued s => s
  | .probing s _ => s

/-- When the probe of a caller started, if it runs one. -/
def Phase.probingSince : Phase → Option Instant
  | .holding _ => none
  | .queued _ => none
  | .probing _ since => some since

/-- The cache with the callers inside it. `arena` holds every slot ever made,
`fresh` is the next slot's identity. -/
structure ProbeCache where
  slots : AList (fun _ : Hash => SlotId)
  arena : SlotId → Slot
  fresh : SlotId
  callers : AList (fun _ : CallerId => Phase)

namespace ProbeCache

/-- `ProbeCache::default()`. -/
def empty : ProbeCache where
  slots := ∅
  arena := fun _ => ⟨"", ⟨none, []⟩, 0⟩
  fresh := 0
  callers := ∅

variable (cache : ProbeCache)

/-- The slot the map holds for `hash`. -/
def entry (hash : Hash) : Option SlotId := cache.slots.lookup hash

/-- Where `c` stands, if it is inside `present`. -/
def caller (c : CallerId) : Option Phase := cache.callers.lookup c

/-- `HashMap::retain`. -/
def retain (slots : AList (fun _ : Hash => SlotId)) (keep : SlotId → Bool) :
    AList (fun _ : Hash => SlotId) :=
  ⟨slots.entries.filter fun e => keep e.2, slots.nodupKeys.sublist List.filter_sublist⟩

/-- Drop expired slots once the map grows past the cap. -/
def sweep (now : Instant) : ProbeCache :=
  if sweepThreshold < cache.slots.entries.length then
    { cache with slots := retain cache.slots fun s => (cache.arena s).live now }
  else cache

/-- Make a slot for `hash` and put it in the map. -/
def insert (hash : Hash) (present : OnceCell) (created : Instant) : ProbeCache :=
  { cache with
    slots := cache.slots.insert hash cache.fresh
    arena := Function.update cache.arena cache.fresh ⟨hash, present, created⟩
    fresh := cache.fresh + 1 }

/-- Record that `hash` now exists, overwriting any existing slot. -/
def markPresent (hash : Hash) (now : Instant) : ProbeCache :=
  (cache.sweep now).insert hash ⟨some true, []⟩ now

/-- The live slot of `hash`, or a new one. -/
def slot (hash : Hash) (now : Instant) : ProbeCache × SlotId :=
  match cache.entry hash with
  | some existing =>
    if (cache.arena existing).live now then (cache, existing)
    else ((cache.sweep now).insert hash ⟨none, []⟩ now, (cache.sweep now).fresh)
  | none => ((cache.sweep now).insert hash ⟨none, []⟩ now, (cache.sweep now).fresh)

/-! ## Callers of `present` -/

/-- Put `c` where it stands now, or take it out. -/
def setCaller (c : CallerId) (phase : Option Phase) : ProbeCache :=
  { cache with callers := phase.elim (cache.callers.erase c) (cache.callers.insert c) }

/-- Change the cell of a slot. -/
def setCell (s : SlotId) (cell : OnceCell) : ProbeCache :=
  { cache with
    arena := Function.update cache.arena s { cache.arena s with present := cell } }

/-- `c` calls `present(hash)` and gets its slot. -/
def call (c : CallerId) (hash : Hash) (now : Instant) : ProbeCache × SlotId :=
  let (cache', s) := cache.slot hash now
  (cache'.setCaller c (some (.holding s)), s)

/-- What a poll of `get_or_try_init` comes to. -/
inductive Polled
  | acquired (a : Acquired)
  | pending
  deriving DecidableEq, Repr

/-- `c` polls `get_or_try_init` at `clock`. A caller that finds the cell set
is answered at once; otherwise it joins the queue, and whoever is at the head
of the queue holds the permit and starts its closure. -/
def poll (c : CallerId) (clock : Instant) : Option (ProbeCache × Polled) :=
  match cache.caller c with
  | some (.holding s) =>
    match (cache.arena s).present with
    | ⟨some v, _⟩ => some (cache.setCaller c none, .acquired (.initialized v))
    | ⟨none, []⟩ =>
      some ((cache.setCell s ⟨none, [c]⟩).setCaller c (some (.probing s clock)),
        .acquired .permit)
    -- the permit is taken: `acquire` waits its turn
    | ⟨none, q⟩ =>
      some ((cache.setCell s ⟨none, q ++ [c]⟩).setCaller c (some (.queued s)), .pending)
  | some (.queued s) =>
    match (cache.arena s).present with
    -- the semaphore was closed by whoever set the cell
    | ⟨some v, _⟩ => some (cache.setCaller c none, .acquired (.initialized v))
    | ⟨none, q⟩ =>
      if q.head? = some c then
        some (cache.setCaller c (some (.probing s clock)), .acquired .permit)
      else none
  | _ => none

/-- The closure of `c` ends in `value` (`none` is an `Err`), and its call with it. -/
def finish (c : CallerId) (value : Option Bool) : Option ProbeCache :=
  match cache.caller c with
  | some (.probing s _) =>
    some ((cache.setCell s ((cache.arena s).present.settle c value)).setCaller c none)
  | _ => none

/-- `c` is dropped at an await. -/
def cancel (c : CallerId) : ProbeCache :=
  match cache.caller c with
  | some phase =>
    (cache.setCell phase.slot ((cache.arena phase.slot).present.leave c)).setCaller c none
  | none => cache

end ProbeCache

/-! ## The functions of the source as tasks -/

/-- `OnceCell::get_or_try_init(probe)` on a slot's cell. -/
def getOrTryInit {ε : Type} (slot : SlotId) (probe : Async (Except ε Bool)) :
    Async (Except ε Bool) := do
  match ← Async.acquire slot with
  | .initialized value => pure (.ok value)
  | .permit =>
    match ← probe with
    | .ok value => do
      Async.settle slot (some value)
      pure (.ok value)
    -- the cell stays empty, and the next in the queue probes again
    | .error e => do
      Async.settle slot none
      pure (.error e)

/-- `ProbeCache::present`. -/
def present {ε : Type} (hash : Hash) (probe : Async (Except ε Bool)) : Async (Except ε Bool) := do
  let now ← Async.now
  let slot ← Async.slot hash now
  getOrTryInit slot probe

/-- `ProbeCache::mark_present`. -/
def markPresent (hash : Hash) : Async Unit := do
  let now ← Async.now
  Async.markPresent hash now

end NxCacheServer.Server
