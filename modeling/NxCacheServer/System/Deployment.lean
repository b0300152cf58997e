import NxCacheServer.Bin.Aws
import NxCacheServer.Server.SelfProbe
import NxCacheServer.System.World

/-!
# A deployment

The processes around the requests. Each instance is a process that boots
(`Bin.boot`), then starts its self-probe and binds its port, and takes requests
from there on; all of them are configured for the one bucket. What happens to
the requests is `NxCacheServer.System.World`, which a deployment contains.

A startup probe that S3 has been asked for may take effect again later, as a
retried attempt may (`DeployLabel.latePut`). `boots` is what each `main` has been
answered so far, `probes` what the self-probes have done, newest first.

Mirroring notes:
- `run_server` spawns the self-probe before it binds the port, so a probe may run
  while nobody listens yet, and goes on if the port cannot be bound until the process
  exits.
- A process that has exited is not started again here. What a new one would do, an
  instance with the same command line does.
- Requests arrive only where somebody listens (`admits`), and the rest of what may
  happen to them is as in a world without processes.
-/

namespace NxCacheServer.System

open NxCacheServer.Bin NxCacheServer.Domain NxCacheServer.Infra NxCacheServer.Server
  NxCacheServer.Lib

/-- What a deployment is given: the command line of each instance, and the
requests. -/
structure Plan where
  cli : InstId → AwsCli
  inst : ReqId → InstId
  request : ReqId → Request
  eTagOf : Bytes → ETag
  bucketName : String
  shares : ∀ i, (cli i).storage.bucketName = bucketName

/-- What the requests are given. -/
def Plan.env (plan : Plan) : Env where
  config i := (plan.cli i).server
  inst := plan.inst
  request := plan.request
  eTagOf := plan.eTagOf

/-- The self-probe of an instance: the loop that `run_server` spawns. -/
inductive Prober
  /-- It has not run yet, so its interval does not exist. -/
  | spawned
  | waiting (ticker : Ticker)
  | probing (ticker : Ticker) (due : Instant) (p : Async ProbeLine)
  /-- It awaits the reply to `call`; `reply` is there once S3 has served it. -/
  | asking (ticker : Ticker) (due : Instant) (call : S3Call) (reply : Option call.Reply)
      (k : call.Reply → Async ProbeLine)

/-- Where a process stands. -/
inductive Stage
  /-- The process has not been started. -/
  | off
  | booting (p : Boot (Except String S3Storage))
  /-- It awaits the reply to its startup probe. -/
  | putting (bucket : String) (key : Hash) (body : Bytes) (reply : Option (Except PutFailure Unit))
      (k : Except PutFailure Unit → Boot (Except String S3Storage))
  /-- `run_server`; it takes requests once its port is bound. -/
  | running (listening : Bool) (prober : Prober)
  | exited (stderr : String)

/-- It takes requests. -/
def Stage.listening : Stage → Bool
  | .running listening _ => listening
  | _ => false

/-- What the self-probe does. -/
inductive ProbeEvent
  | started
  | called (call : S3Call)
  | did (ev : TaskEvent)
  | finished (line : ProbeLine)
  deriving DecidableEq

/-- An event of the self-probe of `inst` that was due at `due`. -/
structure ProbeEntry where
  time : Instant
  inst : InstId
  due : Instant
  event : ProbeEvent
  deriving DecidableEq

/-- The requests and the bucket, and the processes around them with what they were
answered and what they reported. -/
structure Deployment where
  world : World
  stages : InstId → Stage
  boots : InstId → List BootEvent
  /-- The startup probes that S3 has been asked for. -/
  asked : List (Hash × Bytes)
  probes : List ProbeEntry

/-- What may happen next: to a request, to a process, to its self-probe, or to the
startup probe that is on its way. -/
inductive DeployLabel
  | request (l : Label)
  | start (i : InstId)
  /-- The next action of `main`; `region` is what is discovered, if it asks. -/
  | boot (i : InstId) (region : Option String)
  | servePut (i : InstId) (reply : Except PutFailure Unit)
  | deliverPut (i : InstId)
  | latePut (key : Hash) (body : Bytes)
  | bind (i : InstId) (result : Except String Unit)
  /-- The self-probe of `i` gets its tick. -/
  | tick (i : InstId)
  /-- The self-probe of `i` performs its next action, or ends. -/
  | probe (i : InstId)
  | serveProbe (i : InstId) (fate : Fate)
  | deliverProbe (i : InstId)
  deriving DecidableEq, Repr

namespace Deployment

/-- Nothing has been started on a bucket with the given objects. -/
def init (objects : Hash → Option Bytes) : Deployment where
  world := World.init objects
  stages := fun _ => .off
  boots := fun _ => []
  asked := []
  probes := []

variable (d : Deployment)

/-- Put an instance where it stands now. -/
def setStage (i : InstId) (stage : Stage) : Deployment :=
  { d with stages := Function.update d.stages i stage }

/-- `main` of `i` has been answered `ev`. -/
def noteBoot (i : InstId) (ev : BootEvent) : Deployment :=
  { d with boots := Function.update d.boots i (d.boots i ++ [ev]) }

/-- Write what a self-probe does into its record. -/
def noteProbe (i : InstId) (due : Instant) (event : ProbeEvent) : Deployment :=
  { d with probes := ⟨d.world.clock, i, due, event⟩ :: d.probes }

/-- The startup probe takes effect. -/
def putObject (key : Hash) (body : Bytes) : Deployment :=
  { d with world := { d.world with bucket := d.world.bucket.setObject key (some body) } }

/-- A request arrives at an instance that listens. -/
def admits (plan : Plan) : Label → Bool
  | .arrive r => (d.stages (plan.inst r)).listening
  | _ => true

/-- An action of the self-probe that needs no S3. -/
def probeStep (clock : Instant) : (e : Act) → Option e.Resp
  | .now => some clock
  | .timer => some clock
  | .log _ => some ()
  | _ => none

/-- One step of the deployment; `none` where the label is not enabled. -/
def step [RustChar] (plan : Plan) (d : Deployment) : DeployLabel → Option Deployment
  | .request l =>
    if d.admits plan l then
      (d.world.step plan.env l).map fun world => { d with world := world }
    else none
  | .start i =>
    match d.stages i with
    | .off => some (d.setStage i (.booting (boot (plan.cli i))))
    | _ => none
  | .boot i region =>
    match d.stages i with
    | .booting (.done (.ok _)) => some (d.setStage i (.running false .spawned))
    | .booting (.done (.error stderr)) => some (d.setStage i (.exited stderr))
    | .booting (.act .discoverRegion k) =>
      some ((d.setStage i (.booting (k region))).noteBoot i ⟨.discoverRegion, region⟩)
    | .booting (.act (.log line) k) =>
      some ((d.setStage i (.booting (k ()))).noteBoot i ⟨.log line, ()⟩)
    | .booting (.act (.putObject bucket key body) k) =>
      some { d.setStage i (.putting bucket key body none k) with asked := (key, body) :: d.asked }
    | _ => none
  | .servePut i reply =>
    match d.stages i with
    | .putting bucket key body none k =>
      let d' := d.setStage i (.putting bucket key body (some reply) k)
      match reply with
      | .ok () => some (d'.putObject key body)
      | .error _ => some d'
    | _ => none
  | .deliverPut i =>
    match d.stages i with
    | .putting bucket key body (some reply) k =>
      some ((d.setStage i (.booting (k reply))).noteBoot i ⟨.putObject bucket key body, reply⟩)
    | _ => none
  | .latePut key body => if (key, body) ∈ d.asked then some (d.putObject key body) else none
  | .bind i result =>
    match d.stages i with
    | .running false prober =>
      match result with
      | .ok () => some (d.setStage i (.running true prober))
      | .error e => some (d.setStage i (.exited (serverFailure e)))
    | _ => none
  | .tick i =>
    match d.stages i with
    | .running listening prober =>
      let start (ticker : Ticker) : Option Deployment :=
        (ticker.tick d.world.clock).map fun (ticker', due) =>
          (d.setStage i (.running listening (.probing ticker' due (selfProbeOnce s3Storage)))).noteProbe
            i due .started
      match prober with
      | .spawned => start (Ticker.interval d.world.clock)
      | .waiting ticker => start ticker
      | _ => none
    | _ => none
  | .probe i =>
    match d.stages i with
    | .running listening (.probing ticker due (.done line)) =>
      some ((d.setStage i (.running listening (.waiting ticker))).noteProbe i due (.finished line))
    | .running listening (.probing ticker due (.act (.s3 call) k)) =>
      some ((d.setStage i (.running listening (.asking ticker due call none k))).noteProbe i due
        (.called call))
    | .running listening (.probing ticker due (.act e k)) =>
      (probeStep d.world.clock e).map fun resp =>
        (d.setStage i (.running listening (.probing ticker due (k resp)))).noteProbe i due
          (.did ⟨e, resp⟩)
    | _ => none
  | .serveProbe i fate =>
    match d.stages i with
    | .running listening (.asking ticker due call none k) =>
      let reply := fate.reply call (d.world.bucket.reply plan.eTagOf call)
      let d' := d.setStage i (.running listening (.asking ticker due call (some reply) k))
      if fate.served then
        some { d' with world :=
          { d.world with bucket := d.world.bucket.apply plan.eTagOf call } }
      else some d'
    | _ => none
  | .deliverProbe i =>
    match d.stages i with
    | .running listening (.asking ticker due call (some reply) k) =>
      some ((d.setStage i (.running listening (.probing ticker due (k reply)))).noteProbe i due
        (.did ⟨.s3 call, reply⟩))
    | _ => none

/-! ## Reading after writing -/

section

variable {d : Deployment} {i i' : InstId} {stage : Stage} {ev : BootEvent} {due : Instant}
  {event : ProbeEvent}

@[simp] theorem stages_setStage :
    (d.setStage i stage).stages i' = if i' = i then stage else d.stages i' :=
  Function.update_apply ..

@[simp] theorem boots_noteBoot :
    (d.noteBoot i ev).boots i' = if i' = i then d.boots i ++ [ev] else d.boots i' :=
  Function.update_apply ..

@[simp] theorem stages_noteBoot : (d.noteBoot i ev).stages = d.stages := rfl

@[simp] theorem stages_noteProbe : (d.noteProbe i due event).stages = d.stages := rfl

@[simp] theorem boots_setStage : (d.setStage i stage).boots = d.boots := rfl

@[simp] theorem boots_noteProbe : (d.noteProbe i due event).boots = d.boots := rfl

@[simp] theorem world_setStage : (d.setStage i stage).world = d.world := rfl

@[simp] theorem world_noteBoot : (d.noteBoot i ev).world = d.world := rfl

@[simp] theorem world_noteProbe : (d.noteProbe i due event).world = d.world := rfl

end

/-! ## The cases of a step -/

/-- The tick that a self-probe gets at `now`. -/
inductive Gets (now : Instant) : Prober → Ticker → Instant → Prop
  | first {ticker : Ticker} {due : Instant}
      (ht : (Ticker.interval now).tick now = some (ticker, due)) : Gets now .spawned ticker due
  | next {ticker ticker' : Ticker} {due : Instant} (ht : ticker.tick now = some (ticker', due)) :
      Gets now (.waiting ticker) ticker' due

/-- What a step did, by its label, with the guards it has passed. -/
inductive Deployed [RustChar] (plan : Plan) (d : Deployment) : DeployLabel → Deployment → Prop
  | request {l : Label} {world : World} (hadmits : d.admits plan l = true)
      (hstep : d.world.step plan.env l = some world) :
      Deployed plan d (.request l) { d with world := world }
  | start {i : InstId} (hstage : d.stages i = .off) :
      Deployed plan d (.start i) (d.setStage i (.booting (boot (plan.cli i))))
  | serves {i : InstId} {region : Option String} {storage : S3Storage}
      (hstage : d.stages i = .booting (.done (.ok storage))) :
      Deployed plan d (.boot i region) (d.setStage i (.running false .spawned))
  | exits {i : InstId} {region : Option String} {stderr : String}
      (hstage : d.stages i = .booting (.done (.error stderr))) :
      Deployed plan d (.boot i region) (d.setStage i (.exited stderr))
  | boots {i : InstId} {region : Option String} {e : BootAct} {resp : e.Resp}
      {k : e.Resp → Boot (Except String S3Storage)} (hstage : d.stages i = .booting (.act e k))
      (hlocal : ∀ bucket key body, e ≠ .putObject bucket key body) :
      Deployed plan d (.boot i region) ((d.setStage i (.booting (k resp))).noteBoot i ⟨e, resp⟩)
  | puts {i : InstId} {region : Option String} {bucket : String} {key : Hash} {body : Bytes}
      {k : Except PutFailure Unit → Boot (Except String S3Storage)}
      (hstage : d.stages i = .booting (.act (.putObject bucket key body) k)) :
      Deployed plan d (.boot i region)
        { d.setStage i (.putting bucket key body none k) with asked := (key, body) :: d.asked }
  | putServed {i : InstId} {bucket : String} {key : Hash} {body : Bytes}
      {k : Except PutFailure Unit → Boot (Except String S3Storage)}
      (hstage : d.stages i = .putting bucket key body none k) :
      Deployed plan d (.servePut i (.ok ()))
        ((d.setStage i (.putting bucket key body (some (.ok ())) k)).putObject key body)
  | putFailed {i : InstId} {bucket : String} {key : Hash} {body : Bytes} {failure : PutFailure}
      {k : Except PutFailure Unit → Boot (Except String S3Storage)}
      (hstage : d.stages i = .putting bucket key body none k) :
      Deployed plan d (.servePut i (.error failure))
        (d.setStage i (.putting bucket key body (some (.error failure)) k))
  | putDelivered {i : InstId} {bucket : String} {key : Hash} {body : Bytes}
      {reply : Except PutFailure Unit} {k : Except PutFailure Unit → Boot (Except String S3Storage)}
      (hstage : d.stages i = .putting bucket key body (some reply) k) :
      Deployed plan d (.deliverPut i)
        ((d.setStage i (.booting (k reply))).noteBoot i ⟨.putObject bucket key body, reply⟩)
  | late {key : Hash} {body : Bytes} (hasked : (key, body) ∈ d.asked) :
      Deployed plan d (.latePut key body) (d.putObject key body)
  | binds {i : InstId} {prober : Prober} (hstage : d.stages i = .running false prober) :
      Deployed plan d (.bind i (.ok ())) (d.setStage i (.running true prober))
  | bindFails {i : InstId} {prober : Prober} {e : String}
      (hstage : d.stages i = .running false prober) :
      Deployed plan d (.bind i (.error e)) (d.setStage i (.exited (serverFailure e)))
  | ticks {i : InstId} {listening : Bool} {prober : Prober} {ticker : Ticker} {due : Instant}
      (hstage : d.stages i = .running listening prober)
      (hgets : Gets d.world.clock prober ticker due) :
      Deployed plan d (.tick i)
        ((d.setStage i (.running listening (.probing ticker due (selfProbeOnce s3Storage)))).noteProbe
          i due .started)
  | finishes {i : InstId} {listening : Bool} {ticker : Ticker} {due : Instant} {line : ProbeLine}
      (hstage : d.stages i = .running listening (.probing ticker due (.done line))) :
      Deployed plan d (.probe i)
        ((d.setStage i (.running listening (.waiting ticker))).noteProbe i due (.finished line))
  | calls {i : InstId} {listening : Bool} {ticker : Ticker} {due : Instant} {call : S3Call}
      {k : call.Reply → Async ProbeLine}
      (hstage : d.stages i = .running listening (.probing ticker due (.act (.s3 call) k))) :
      Deployed plan d (.probe i)
        ((d.setStage i (.running listening (.asking ticker due call none k))).noteProbe i due
          (.called call))
  | acts {i : InstId} {listening : Bool} {ticker : Ticker} {due : Instant} {e : Act} {resp : e.Resp}
      {k : e.Resp → Async ProbeLine} (hlocal : ∀ call, e ≠ .s3 call)
      (hstage : d.stages i = .running listening (.probing ticker due (.act e k))) :
      Deployed plan d (.probe i)
        ((d.setStage i (.running listening (.probing ticker due (k resp)))).noteProbe i due
          (.did ⟨e, resp⟩))
  | probeServed {i : InstId} {listening : Bool} {ticker : Ticker} {due : Instant} {fate : Fate}
      {call : S3Call} {k : call.Reply → Async ProbeLine}
      (hstage : d.stages i = .running listening (.asking ticker due call none k))
      (hf : fate.served = true) :
      Deployed plan d (.serveProbe i fate)
        { d.setStage i (.running listening (.asking ticker due call
            (some (fate.reply call (d.world.bucket.reply plan.eTagOf call))) k)) with
          world := { d.world with bucket := d.world.bucket.apply plan.eTagOf call } }
  | probeFailed {i : InstId} {listening : Bool} {ticker : Ticker} {due : Instant} {fate : Fate}
      {call : S3Call} {k : call.Reply → Async ProbeLine}
      (hstage : d.stages i = .running listening (.asking ticker due call none k))
      (hf : fate.served = false) :
      Deployed plan d (.serveProbe i fate)
        (d.setStage i (.running listening (.asking ticker due call
          (some (fate.reply call (d.world.bucket.reply plan.eTagOf call))) k)))
  | probeDelivered {i : InstId} {listening : Bool} {ticker : Ticker} {due : Instant} {call : S3Call}
      {reply : call.Reply} {k : call.Reply → Async ProbeLine}
      (hstage : d.stages i = .running listening (.asking ticker due call (some reply) k)) :
      Deployed plan d (.deliverProbe i)
        ((d.setStage i (.running listening (.probing ticker due (k reply)))).noteProbe i due
          (.did ⟨.s3 call, reply⟩))

section

variable [RustChar] {plan : Plan} {d d' : Deployment}

theorem boot_cases {i : InstId} {region : Option String}
    (h : d.step plan (.boot i region) = some d') : Deployed plan d (.boot i region) d' := by
  rw [step] at h
  split at h
  next storage hstage =>
    cases h
    exact .serves hstage
  next stderr hstage =>
    cases h
    exact .exits hstage
  next k hstage =>
    cases h
    exact .boots hstage fun _ _ _ hno => by cases hno
  next line k hstage =>
    cases h
    exact .boots hstage fun _ _ _ hno => by cases hno
  next bucket key body k hstage =>
    cases h
    exact .puts hstage
  next => cases h

theorem tick_cases {i : InstId} (h : d.step plan (.tick i) = some d') :
    Deployed plan d (.tick i) d' := by
  rw [step] at h
  split at h
  next listening prober hstage =>
    dsimp only at h
    split at h
    next =>
      obtain ⟨⟨ticker, due⟩, ht, rfl⟩ := Option.map_eq_some_iff.mp h
      exact .ticks hstage (.first ht)
    next ticker =>
      obtain ⟨⟨ticker', due⟩, ht, rfl⟩ := Option.map_eq_some_iff.mp h
      exact .ticks hstage (.next ht)
    next => cases h
  next => cases h

theorem probe_cases {i : InstId} (h : d.step plan (.probe i) = some d') :
    Deployed plan d (.probe i) d' := by
  rw [step] at h
  split at h
  next listening ticker due line hstage =>
    cases h
    exact .finishes hstage
  next listening ticker due call k hstage =>
    cases h
    exact .calls hstage
  next listening ticker due e k hlocal hstage =>
    obtain ⟨resp, -, rfl⟩ := Option.map_eq_some_iff.mp h
    refine .acts ?_ hstage
    intro call heq
    subst heq
    exact hlocal call k rfl HEq.rfl
  next => cases h

/-- Every step did what its label says, and nothing else. -/
theorem step_cases {l : DeployLabel} (h : d.step plan l = some d') : Deployed plan d l d' := by
  cases l with
  | request l =>
    rw [step] at h
    split at h
    next hadmits =>
      obtain ⟨world, hstep, rfl⟩ := Option.map_eq_some_iff.mp h
      exact .request hadmits hstep
    next => cases h
  | start i =>
    rw [step] at h
    split at h
    next hstage =>
      cases h
      exact .start hstage
    next => cases h
  | boot i region => exact boot_cases h
  | servePut i reply =>
    rw [step] at h
    split at h
    next bucket key body k hstage =>
      cases reply with
      | ok _ =>
        cases h
        exact .putServed hstage
      | error failure =>
        cases h
        exact .putFailed hstage
    next => cases h
  | deliverPut i =>
    rw [step] at h
    split at h
    next bucket key body reply k hstage =>
      cases h
      exact .putDelivered hstage
    next => cases h
  | latePut key body =>
    rw [step] at h
    split at h
    next hasked =>
      cases h
      exact .late hasked
    next => cases h
  | bind i result =>
    rw [step] at h
    split at h
    next prober hstage =>
      cases result with
      | ok _ =>
        cases h
        exact .binds hstage
      | error e =>
        cases h
        exact .bindFails hstage
    next => cases h
  | tick i => exact tick_cases h
  | probe i => exact probe_cases h
  | serveProbe i fate =>
    rw [step] at h
    split at h
    next listening ticker due call k hstage =>
      dsimp only at h
      split at h
      next hf =>
        cases h
        exact .probeServed hstage hf
      next hf =>
        cases h
        exact .probeFailed hstage (Bool.eq_false_iff.mpr hf)
    next => cases h
  | deliverProbe i =>
    rw [step] at h
    split at h
    next listening ticker due call reply k hstage =>
      cases h
      exact .probeDelivered hstage
    next => cases h

end

end Deployment

/-! ## A small deployment -/

/-- Requests, each with the instance it is sent to; all others are GETs. -/
def examplePlan (requests : List (InstId × Request)) : Plan where
  cli _ := exampleCli
  inst := (exampleEnv requests).inst
  request := (exampleEnv requests).request
  eTagOf := (exampleEnv requests).eTagOf
  bucketName := "cache"
  shares _ := rfl

/-- Instance 0 starts, and S3 takes its startup probe. -/
def exampleStart : List DeployLabel :=
  [.start 0, .boot 0 none, .servePut 0 (.ok ()), .deliverPut 0, .boot 0 none, .boot 0 none,
    .bind 0 (.ok ())]

end NxCacheServer.System
