import NxCacheServer.Infra.Aws

/-!
# The self-probe

`self_probe_once` of `src/server/mod.rs`, and the ticker that `run_server` starts
it by. A `tokio::time::interval` fires at once and then once a period: a tick
that comes late does not move the ones after it, so what was missed is caught up
on, one probe after the other.
-/

namespace NxCacheServer.Server

open NxCacheServer.Domain NxCacheServer.Infra NxCacheServer.Lib

/-- How often the self-probe checks that S3 is still reachable. -/
def selfProbeInterval : Duration := fromSecs 60

/-- The interval is not zero, or `tokio::time::interval` would not take it. -/
theorem selfProbeInterval_pos : 0 < selfProbeInterval := by decide

/-- INFO "s3 self-probe". -/
structure ProbeLine where
  durationMs : Nat
  reachable : Bool
  deriving DecidableEq, Repr

/-- `self_probe_once`, up to the line it logs. -/
def selfProbeOnce (storage : StorageProvider) : Async ProbeLine := do
  let start ← Async.now
  let outcome ← storage.existsKey probeKey
  let stop ← Async.now
  pure ⟨(stop - start) / 1000000, outcome.isOk⟩

/-- What a self-probe may do: look for its object, and report at most one error.
The ghost state counts them. -/
def watching : Prog.Contract Act Act.Resp Nat where
  allow errors e :=
    match e with
    | .now => True
    | .s3 call => call = .headObject probeKey
    | .log line => errors = 0 ∧ ∃ err, line = .s3Error "head" probeKey err
    | _ => False
  promise _ _ _ := True
  update errors e _ :=
    match e with
    | .log _ => errors + 1
    | _ => errors

/-- The self-probe says that S3 is out of reach if and only if it has reported an
error. -/
theorem selfProbeOnce_watching : (selfProbeOnce s3Storage).wp watching
    (fun line errors => errors = if line.reachable then 0 else 1) 0 := by
  refine ⟨trivial, fun start _ => ⟨rfl, fun reply _ => ?_⟩⟩
  rcases reply with (_ | err) | _
  · exact ⟨trivial, fun stop _ => rfl⟩
  · exact ⟨⟨rfl, err, rfl⟩, fun _ _ => ⟨trivial, fun stop _ => rfl⟩⟩
  · exact ⟨trivial, fun stop _ => rfl⟩

/-- The request failed: S3 answered neither that the object is there nor that it is
not. -/
def headFailed : Except HeadError Unit → Bool
  | .error (.other _) => true
  | _ => false

/-- What a self-probe is promised where its request gets through if and only if
`up`. -/
def answeredIf (up : Bool) : Prog.Contract Act Act.Resp Unit where
  allow _ _ := True
  promise _ e r :=
    match e, r with
    | .s3 (.headObject _), r => headFailed r = !up
    | _, _ => True
  update _ _ _ := ()

/-- It says that S3 is reachable if and only if its request gets through; that the
object is missing is an answer, too. -/
theorem selfProbeOnce_answeredIf (up : Bool) : (selfProbeOnce s3Storage).wp (answeredIf up)
    (fun line _ => line.reachable = up) () := by
  refine ⟨trivial, fun start _ => ⟨trivial, fun reply hreply => ?_⟩⟩
  rcases reply with (_ | err) | _
  · exact ⟨trivial, fun stop _ => Bool.not_inj hreply⟩
  · exact ⟨trivial, fun _ _ => ⟨trivial, fun stop _ => Bool.not_inj hreply⟩⟩
  · exact ⟨trivial, fun stop _ => Bool.not_inj hreply⟩

/-- `tokio::time::Interval`: when the next tick is due. -/
structure Ticker where
  deadline : Instant
  deriving DecidableEq, Repr

/-- `tokio::time::interval`. -/
def Ticker.interval (now : Instant) : Ticker := ⟨now⟩

/-- `Interval::tick`, which answers when the tick was due. -/
def Ticker.tick (ticker : Ticker) (now : Instant) : Option (Ticker × Instant) :=
  if ticker.deadline ≤ now then some (⟨ticker.deadline + selfProbeInterval⟩, ticker.deadline)
  else none

/-- A tick is handed over when it is due or later, and the next is due one interval
after it was, however late it came. -/
theorem Ticker.tick_eq_some {ticker ticker' : Ticker} {now due : Instant} :
    ticker.tick now = some (ticker', due) ↔
      due = ticker.deadline ∧ due ≤ now ∧ ticker'.deadline = due + selfProbeInterval := by
  obtain ⟨deadline'⟩ := ticker'
  unfold Ticker.tick
  split
  next hle =>
    rw [Option.some.injEq, Prod.mk.injEq, Ticker.mk.injEq]
    constructor
    · intro h
      obtain ⟨rfl, rfl⟩ := h
      exact ⟨rfl, hle, rfl⟩
    · intro h
      obtain ⟨rfl, -, hdeadline⟩ := h
      exact ⟨hdeadline.symm, rfl⟩
  next hle =>
    constructor
    · intro h
      cases h
    · intro h
      obtain ⟨rfl, hdue, -⟩ := h
      exact absurd hdue hle

end NxCacheServer.Server
