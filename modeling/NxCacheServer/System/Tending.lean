import NxCacheServer.System.Booting
import NxCacheServer.System.Liveness

/-!
# Every request to a deployment is answered

That every request is answered does not depend on what becomes of the bucket
(`World.Heeded`), so it holds in a deployment, where startup probes write to it
and instances come up one after the other (`every_arrival_ends`). `Tended` asks of
the processes, of S3 and of the clock that they go on, and of the clients what
`World.every_request_ends` asks: that no body stays open for ever.

The proof takes the requests out of the execution of a deployment: what its processes
do to the bucket is a change from outside, which the liveness of requests allows at
any time.
-/

namespace NxCacheServer.System

open NxCacheServer.Domain NxCacheServer.Infra NxCacheServer.Server NxCacheServer.Lib

namespace Deployment

variable [RustChar] {plan : Plan} {d d' : Deployment} {l : DeployLabel} {r : ReqId} {n : Nat}

/-- What a step into `d'` is to the requests. -/
def seen (d' : Deployment) : DeployLabel → Label ⊕ Bucket
  | .request l => .inl l
  | _ => .inr d'.world.bucket

/-- To the requests a step of the deployment is one of theirs, or another bucket. -/
theorem openStep_seen (h : d.step plan l = some d') :
    World.openStep plan.env d.world (seen d' l) = some d'.world := by
  cases step_cases h with
  | request _ hstep => exact hstep
  | _ => rfl

/-- What the requests see of an execution. -/
def onlyRequests (x : Execution (step plan)) : Execution (World.openStep plan.env) where
  state n := (x.state n).world
  label n := seen (x.state (n + 1)) (x.label n)
  next n := openStep_seen (x.next n)

/-- What its requests can do, a deployment can. -/
theorem enabled_of_forward
    (h : Execution.Enabled (World.openStep plan.env) (World.Forward r) d.world) :
    Execution.Enabled (step plan) (DeployLabel.Advances r) d := by
  obtain ⟨lb, hl, h⟩ := h
  cases lb with
  | inl l =>
    obtain ⟨w, h⟩ := Option.isSome_iff_exists.mp h
    have hadmits : d.admits plan l = true := by
      cases l with
      | arrive q => exact absurd hl not_false
      | _ => rfl
    refine ⟨.request l, hl, ?_⟩
    rw [step, if_pos hadmits, show d.world.step plan.env l = some w from h]
    rfl
  | inr bucket => exact absurd hl not_false

/-- So an execution that is tended is one that heeds its requests. -/
theorem Tended.heeded {x : Execution (step plan)} (hx : Tended plan x) :
    World.Heeded plan.env (onlyRequests x) where
  start := by
    obtain ⟨objects, hinit⟩ := hx.start
    exact ⟨objects, congrArg world hinit⟩
  fair r := by
    intro n henabled
    obtain ⟨m, hnm, hm⟩ := hx.requests r n fun m hnm => enabled_of_forward (henabled m hnm)
    refine ⟨m, hnm, ?_⟩
    show World.Forward r (seen (x.state (m + 1)) (x.label m))
    cases hl : x.label m with
    | request l =>
      rw [hl] at hm
      exact hm
    | _ =>
      rw [hl] at hm
      exact absurd hm not_false
  time := hx.time

/-- **Every request that has come is answered**, while instances boot, write their
startup probes and look for them, whatever S3 and the other requests do, unless its
client goes away. Here too every body ends or breaks off at some instant. -/
theorem every_arrival_ends {x : Execution (step plan)} (hx : Tended plan x)
    (harrived : (x.state n).world.tasks r ≠ .absent) :
    ∃ m, n ≤ m ∧ ((∃ response, (x.state m).world.tasks r = .answered response) ∨
      (x.state m).world.tasks r = .dropped) :=
  hx.heeded.ends n harrived

omit [RustChar] in
/-- A GET at instance 0, which has just come up. -/
theorem arrivedGet_ends : ∃ x : Execution (@Deployment.step asciiChars (examplePlan [])),
    @Tended asciiChars (examplePlan []) x ∧ (x.state 8).world.tasks 0 ≠ .absent ∧
    ∃ m, 8 ≤ m ∧ ((∃ response, (x.state m).world.tasks 0 = .answered response) ∨
      (x.state m).world.tasks 0 = .dropped) := by
  let _ : RustChar := asciiChars
  obtain ⟨d, hrun, hcame⟩ : ∃ d, Run (Deployment.step (examplePlan [])) (fun _ _ => True)
      (init fun _ => none) (exampleStart ++ [.request (.arrive 0)]) d ∧
      ¬ d.world.tasks 0 = .absent :=
    exists_run_of_exec (fun _ _ _ => trivial)
      (show (exec _ (fun _ _ => true) _ _).any _ = true by decide)
  obtain ⟨x, hx, hstate, -⟩ := exists_tended hrun (P := fun _ => True) ⟨.answer, trivial⟩
  have height : (x.state 8).world.tasks 0 ≠ .absent := by
    rw [show x.state 8 = d from hstate]
    exact hcame
  exact ⟨x, hx, height, every_arrival_ends hx height⟩

end Deployment

end NxCacheServer.System
