import Mathlib.Data.Countable.Basic
import NxCacheServer.Lib.Fair
import NxCacheServer.System.Admission
import NxCacheServer.System.Waiting

/-!
# Every boot ends

A boot asks for so much and no more, so it ends, as long as its process, S3 and
the clock go on (`Attended`): an instance that is started listens at last, or has
a reason to exit (`every_boot_ends`).

Fairness is asked of the labels of one instance at a time: its boot and its self-probe
go on, whatever the others do. `Justified` keeps the reason of an exit: the command
line is not fit, the region is missing, S3 has refused the startup probe, or the port
could not be bound.

A stage of the boot is measured by the program that is left and by a counter for the
request that is on its way (`Starting`); each step of the boot makes it smaller.
`exists_tended` gives an execution that is fair in this sense and begins with a given
run, so the liveness results are not about nothing.
-/

namespace NxCacheServer.System

open NxCacheServer.Bin NxCacheServer.Domain NxCacheServer.Infra NxCacheServer.Server
  NxCacheServer.Lib

namespace DeployLabel

/-- The instance whose process takes the step. -/
def inst : DeployLabel → Option InstId
  | .request _ => none
  | .start i => some i
  | .boot i _ => some i
  | .servePut i _ => some i
  | .deliverPut i => some i
  | .latePut _ _ => none
  | .bind i _ => some i
  | .tick i => some i
  | .probe i => some i
  | .serveProbe i _ => some i
  | .deliverProbe i => some i

/-- The steps by which `main` of `i` gets on. -/
def Boots (i : InstId) : DeployLabel → Prop
  | .boot i' _ => i' = i
  | .servePut i' _ => i' = i
  | .deliverPut i' => i' = i
  | .bind i' _ => i' = i
  | _ => False

/-- The steps by which the self-probe of `i` gets on. -/
def Probes (i : InstId) : DeployLabel → Prop
  | .tick i' => i' = i
  | .probe i' => i' = i
  | .serveProbe i' _ => i' = i
  | .deliverProbe i' => i' = i
  | _ => False

/-- The steps by which the request `r` gets on. -/
def Advances (r : ReqId) : DeployLabel → Prop
  | .request l => l.Advances r
  | _ => False

variable {l : DeployLabel} {i : InstId}

/-- A step by which an instance boots is one of it. -/
theorem Boots.inst_eq (h : l.Boots i) : l.inst = some i := by
  cases l <;> cases h <;> rfl

theorem Probes.inst_eq (h : l.Probes i) : l.inst = some i := by
  cases l <;> cases h <;> rfl

end DeployLabel

namespace Stage

/-- A boot under way: what is left of it, and the phases of its next action. -/
inductive Starting : Boot (Except String S3Storage) × Nat → Stage → Prop
  | booting {p : Boot (Except String S3Storage)} : Starting (p, 2) (.booting p)
  | putting {bucket : String} {key : Hash} {body : Bytes}
      {k : Except PutFailure Unit → Boot (Except String S3Storage)} :
      Starting (.act (.putObject bucket key body) k, 1) (.putting bucket key body none k)
  | put {bucket : String} {key : Hash} {body : Bytes} {reply : Except PutFailure Unit}
      {k : Except PutFailure Unit → Boot (Except String S3Storage)} :
      Starting (.act (.putObject bucket key body) k, 0) (.putting bucket key body (some reply) k)

/-- `main` has got to `run_server`, or has ended. -/
def Booted : Stage → Prop
  | .running _ _ => True
  | .exited _ => True
  | _ => False

theorem starting_or_booted {stage : Stage} (hstarted : stage ≠ .off) :
    (∃ left, stage.Starting left) ∨ stage.Booted := by
  cases stage with
  | off => exact absurd rfl hstarted
  | booting p => exact Or.inl ⟨_, .booting⟩
  | putting bucket key body reply k =>
    cases reply with
    | none => exact Or.inl ⟨_, .putting⟩
    | some reply => exact Or.inl ⟨_, .put⟩
  | running listening prober => exact Or.inr trivial
  | exited stderr => exact Or.inr trivial

/-- It runs and does not listen yet. -/
def Unbound (stage : Stage) : Prop := ∃ prober, stage = .running false prober

/-- It takes requests, or has given up. -/
def Settled (stage : Stage) : Prop := stage.listening = true ∨ ∃ stderr, stage = .exited stderr

end Stage

namespace Deployment

variable [RustChar] {plan : Plan} {d d' : Deployment} {l : DeployLabel} {i : InstId} {n : Nat}

/-- Processes get on if they can, and time goes on. -/
structure Attended (plan : Plan) (x : Execution (step plan)) : Prop where
  start : ∃ objects, x.state 0 = init objects
  boots : ∀ i, x.Fair (DeployLabel.Boots i)
  probes : ∀ i, x.Fair (DeployLabel.Probes i)
  time : ∀ t, ∃ n, t ≤ (x.state n).world.clock

omit [RustChar] in
theorem stages_self {stage : Stage} : (d.setStage i stage).stages i = stage :=
  Function.update_self ..

/-- The stage of an instance is its own. -/
theorem stages_of_other (h : d.step plan l = some d') (hl : l.inst ≠ some i) :
    d'.stages i = d.stages i := by
  have hother : ∀ {i' : InstId} {stage : Stage}, some i' ≠ some i →
      (d.setStage i' stage).stages i = d.stages i := by
    intro i' stage hne
    rw [stages_setStage, if_neg fun heq => hne (congrArg some heq.symm)]
  cases step_cases h with
  | request _ _ | late _ => rfl
  | start _ | serves _ | exits _ | boots _ _ | puts _ | putServed _ | putFailed _
  | putDelivered _ | binds _ | bindFails _ | ticks _ _ | finishes _ | calls _ | acts _ _
  | probeServed _ _ | probeFailed _ _ | probeDelivered _ => exact hother hl

/-! ## Boots -/

omit [RustChar] in
/-- A step of the boot brings it nearer to its end. -/
theorem nearer_setStage {left left' : Boot (Except String S3Storage) × Nat} {stage : Stage}
    (hstage : stage.Starting left') (hnearer : Prog.Nearer left' left) :
    ∃ left', Prog.Nearer left' left ∧ ((d.setStage i stage).stages i).Starting left' :=
  ⟨left', hnearer, by rw [stages_self]; exact hstage⟩

/-- A boot is where it was, or comes closer to its end. -/
theorem starting_step {left : Boot (Except String S3Storage) × Nat}
    (hleft : (d.stages i).Starting left) (h : d.step plan l = some d') :
    (d'.stages i).Starting left ∧ ¬ l.Boots i ∨
      (∃ left', Prog.Nearer left' left ∧ (d'.stages i).Starting left') ∨
        (d'.stages i).Booted := by
  by_cases hl : l.inst = some i
  · right
    cases step_cases h with
    | request _ _ | late _ => cases hl
    | start hstage | binds hstage | bindFails hstage | ticks hstage _ | finishes hstage
    | calls hstage | acts _ hstage | probeServed hstage _ | probeFailed hstage _
    | probeDelivered hstage =>
      obtain rfl := Option.some.inj hl
      rw [hstage] at hleft
      cases hleft
    | serves _ | exits _ =>
      obtain rfl := Option.some.inj hl
      right
      rw [stages_self]
      trivial
    | boots hstage _ =>
      obtain rfl := Option.some.inj hl
      rw [hstage] at hleft
      cases hleft
      exact Or.inl (nearer_setStage .booting Prog.nearer_answered)
    | puts hstage =>
      obtain rfl := Option.some.inj hl
      rw [hstage] at hleft
      cases hleft
      exact Or.inl (nearer_setStage .putting (Prog.nearer_phase Nat.one_lt_two))
    | putServed hstage | putFailed hstage =>
      obtain rfl := Option.some.inj hl
      rw [hstage] at hleft
      cases hleft
      exact Or.inl (nearer_setStage .put (Prog.nearer_phase Nat.one_pos))
    | @putDelivered i' bucket key body reply k hstage =>
      obtain rfl := Option.some.inj hl
      rw [hstage] at hleft
      cases hleft
      exact Or.inl (nearer_setStage .booting (@Prog.nearer_answered BootAct BootAct.Resp
        (Except String S3Storage) (.putObject bucket key body) k reply 2 0))
  · refine Or.inl ⟨?_, fun hno => hl hno.inst_eq⟩
    rw [stages_of_other h hl]
    exact hleft

theorem starting_enabled {left : Boot (Except String S3Storage) × Nat}
    (hleft : (d.stages i).Starting left) :
    Execution.Enabled (step plan) (DeployLabel.Boots i) d := by
  cases hstage : d.stages i with
  | off | running _ _ | exited _ =>
    rw [hstage] at hleft
    cases hleft
  | booting p =>
    refine ⟨.boot i none, rfl, ?_⟩
    rw [step, hstage]
    cases p with
    | done result => cases result <;> rfl
    | act e k => cases e <;> rfl
  | putting bucket key body reply k =>
    cases reply with
    | none => exact ⟨.servePut i (.ok ()), rfl, by rw [step, hstage]; rfl⟩
    | some reply => exact ⟨.deliverPut i, rfl, by rw [step, hstage]; rfl⟩

/-- Before its port is bound, a process only binds it. -/
theorem unbound_step (hunbound : (d.stages i).Unbound) (h : d.step plan l = some d') :
    (d'.stages i).Unbound ∧ ¬ l.Boots i ∨ (d'.stages i).Settled := by
  obtain ⟨prober, hunbound⟩ := hunbound
  by_cases hl : l.inst = some i
  · cases step_cases h with
    | request _ _ | late _ => cases hl
    | start hstage | serves hstage | exits hstage | boots hstage _ | puts hstage
    | putServed hstage | putFailed hstage | putDelivered hstage =>
      obtain rfl := Option.some.inj hl
      rw [hstage] at hunbound
      cases hunbound
    | binds _ =>
      obtain rfl := Option.some.inj hl
      exact Or.inr (Or.inl (by rw [stages_self]; rfl))
    | bindFails _ =>
      obtain rfl := Option.some.inj hl
      exact Or.inr (Or.inr ⟨_, stages_self⟩)
    | ticks hstage _ | finishes hstage | calls hstage | acts _ hstage | probeServed hstage _
    | probeFailed hstage _ | probeDelivered hstage =>
      obtain rfl := Option.some.inj hl
      rw [hstage] at hunbound
      cases hunbound
      exact Or.inl ⟨⟨_, stages_self⟩, fun hno => hno⟩
  · refine Or.inl ⟨⟨prober, ?_⟩, fun hno => hl hno.inst_eq⟩
    rw [stages_of_other h hl, hunbound]

/-- An instance exits for a reason: its configuration, what it was answered, or its
port. -/
def Justified (plan : Plan) (d : Deployment) : Prop :=
  ∀ i stderr, d.stages i = .exited stderr →
    ¬ (Fit (plan.cli i) ∧ Helped (d.boots i)) ∨ ∃ e, stderr = serverFailure e

theorem Justified.step (hd : Justified plan d) (hfollows : Follows plan d)
    (h : d.step plan l = some d') : Justified plan d' := by
  have hset : ∀ {i : InstId} {stage : Stage}, (∀ stderr, stage = .exited stderr →
      ¬ (Fit (plan.cli i) ∧ Helped (d.boots i)) ∨ ∃ e, stderr = serverFailure e) →
      Justified plan (d.setStage i stage) := by
    intro i stage hstage i' stderr hexited
    rw [stages_setStage] at hexited
    split at hexited
    next heq =>
      rw [heq]
      exact hstage stderr hexited
    next => exact hd i' stderr hexited
  cases step_cases h with
  | request _ _ | late _ => exact hd
  | start _ | serves _ | puts _ | putServed _ | putFailed _ | binds _ | ticks _ _ | finishes _
  | calls _ | acts _ _ | probeServed _ _ | probeFailed _ _ | probeDelivered _ =>
    exact hset fun stderr hno => by cases hno
  | boots _ _ | putDelivered _ =>
    intro i' stderr hexited
    rw [stages_noteBoot, stages_setStage] at hexited
    rw [boots_noteBoot, boots_setStage]
    split at hexited
    next => cases hexited
    next hne =>
      rw [if_neg hne]
      exact hd i' stderr hexited
  | @exits i _ text hstage =>
    refine hset fun stderr _ => Or.inl ?_
    have hi := hfollows i
    rw [hstage] at hi
    have hends := Prog.wp_after (booting_unpromising _) (boot_booting _) hi
    rw [booting_after, List.nil_append] at hends
    intro hserves
    cases hends.1.mpr hserves
  | bindFails _ =>
    refine hset fun stderr hexited => Or.inr ?_
    cases hexited
    exact ⟨_, rfl⟩

namespace Attended

variable {x : Execution (step plan)} (hx : Attended plan x)

include hx

theorem invariant {I : Deployment → Prop} (hinit : ∀ objects, I (init objects))
    (hstep : ∀ d l d', I d → d.step plan l = some d' → I d') (n : Nat) : I (x.state n) := by
  obtain ⟨objects, hstart⟩ := hx.start
  exact x.invariant (by rw [hstart]; exact hinit objects) hstep n

theorem follows (n : Nat) : Follows plan (x.state n) ∧ Justified plan (x.state n) :=
  hx.invariant (I := fun d => Follows plan d ∧ Justified plan d)
    (fun _ => ⟨follows_init, fun _ _ hno => by cases hno⟩)
    (fun _ _ _ hd h => ⟨hd.1.step h, hd.2.step hd.1 h⟩) n

/-- A boot ends: by descent along what is left of `main`. -/
theorem starting_booted (left : Boot (Except String S3Storage) × Nat) :
    x.LeadsTo (fun d => (d.stages i).Starting left) (fun d => (d.stages i).Booted) := by
  refine .descent Prog.nearer_wellFounded 
    (F := fun left (d : Deployment) => (d.stages i).Starting left) ?_ left
  intro left
  exact (hx.boots i).leadsTo_of_step (fun n hn => starting_step hn (x.next n))
    fun n hn => starting_enabled hn

/-- A port is bound at last, or the process exits. -/
theorem unbound_settled :
    x.LeadsTo (fun d => (d.stages i).Unbound) (fun d => (d.stages i).Settled) := by
  refine (hx.boots i).leadsTo_of_step (fun n hn => unbound_step hn (x.next n)) ?_
  intro n hn
  obtain ⟨prober, hstage⟩ := hn
  exact ⟨.bind i (.ok ()), rfl, by rw [Deployment.step, hstage]; rfl⟩

theorem booted_settled :
    x.LeadsTo (fun d => (d.stages i).Booted) (fun d => (d.stages i).Settled) := by
  intro n hn
  cases hstage : (x.state n).stages i with
  | off | booting _ | putting _ _ _ _ _ =>
    rw [hstage] at hn
    exact absurd hn not_false
  | running listening prober =>
    cases listening with
    | false => exact hx.unbound_settled n ⟨prober, hstage⟩
    | true => exact ⟨n, Nat.le_refl n, Or.inl (by rw [hstage]; rfl)⟩
  | exited stderr => exact ⟨n, Nat.le_refl n, Or.inr ⟨stderr, hstage⟩⟩

theorem started_settled :
    x.LeadsTo (fun d => d.stages i ≠ .off) (fun d => (d.stages i).Settled) := by
  intro n hn
  rcases Stage.starting_or_booted hn with ⟨left, hstarting⟩ | hbooted
  · exact (hx.starting_booted left).trans hx.booted_settled n hstarting
  · exact hx.booted_settled n hbooted

end Attended

/-- **Every boot ends.** Whatever the region providers and S3 answer, an instance
that has been started listens at last, and then its configuration is fit and it got
no unhelpful answer, or it has exited, and then this is not so or its port could not
be bound. -/
theorem every_boot_ends {x : Execution (step plan)} (hx : Attended plan x)
    (hstarted : (x.state n).stages i ≠ .off) :
    ∃ m, n ≤ m ∧ (((x.state m).stages i).listening = true ∧ Fit (plan.cli i) ∧
        Helped ((x.state m).boots i) ∨
      ∃ stderr, (x.state m).stages i = .exited stderr ∧
        (¬ (Fit (plan.cli i) ∧ Helped ((x.state m).boots i)) ∨ ∃ e, stderr = serverFailure e)) := by
  obtain ⟨m, hnm, hlistens | ⟨stderr, hexited⟩⟩ := hx.started_settled n hstarted
  · refine ⟨m, hnm, Or.inl ⟨hlistens, ?_⟩⟩
    cases hstage : (x.state m).stages i with
    | running listening prober =>
      obtain ⟨hfit, hhelped, -⟩ := (hx.follows m).1.running hstage
      exact ⟨hfit, hhelped⟩
    | _ =>
      rw [hstage] at hlistens
      cases hlistens
  · exact ⟨m, hnm, Or.inr ⟨stderr, hexited, (hx.follows m).2 i stderr hexited⟩⟩

/-! ## Any run goes on as one that is attended -/

theorem clock_of_step (h : d.step plan l = some d') : d.world.clock ≤ d'.world.clock := by
  rcases world_of_step h with ⟨l', -, hw⟩ | ⟨bucket, hw⟩
  · exact World.clock_of_step hw
  · rw [hw]

/-- S3 may deal with a self-probe as it likes. -/
theorem serveProbe_enabled {fate : Fate} (fate' : Fate)
    (h : (d.step plan (.serveProbe i fate)).isSome = true) :
    (d.step plan (.serveProbe i fate')).isSome = true := by
  obtain ⟨d', h⟩ := Option.isSome_iff_exists.mp h
  cases step_cases h with
  | probeServed hstage _ | probeFailed hstage _ =>
    rw [step, hstage]
    dsimp only
    split <;> rfl

/-- Processes get on, and requests, too. -/
structure Tended (plan : Plan) (x : Execution (step plan)) : Prop extends Attended plan x where
  requests : ∀ r, x.Fair (DeployLabel.Advances r)

/-- Boots, self-probes, requests and the clock. -/
def Shifts : InstId ⊕ InstId ⊕ ReqId ⊕ Unit → DeployLabel → Prop
  | .inl i => DeployLabel.Boots i
  | .inr (.inl i) => DeployLabel.Probes i
  | .inr (.inr (.inl r)) => DeployLabel.Advances r
  | .inr (.inr (.inr _)) => fun l => l = .request (.tick 1)

/-- S3 deals with the self-probes as `P` has it. -/
def Dealt (P : Fate → Prop) : DeployLabel → Prop
  | .serveProbe _ fate => P fate
  | _ => True

/-- What can happen can happen with a fate that is dealt. -/
theorem shifts_enabled {P : Fate → Prop} (hfate : ∃ fate, P fate)
    (c : InstId ⊕ InstId ⊕ ReqId ⊕ Unit) (d : Deployment)
    (henabled : Execution.Enabled (step plan) (Shifts c) d) :
    Execution.Enabled (step plan) (fun l => Shifts c l ∧ Dealt P l) d := by
  obtain ⟨fate, hfate⟩ := hfate
  obtain ⟨l, hl, h⟩ := henabled
  cases l with
  | serveProbe i fate' =>
    refine ⟨.serveProbe i fate, ⟨?_, hfate⟩, serveProbe_enabled fate h⟩
    rcases c with i' | i' | r | _
    · exact hl
    · exact hl
    · exact hl
    · cases hl
  | _ => exact ⟨_, ⟨hl, trivial⟩, h⟩

/-- Every run goes on as a tended one, in which S3 deals with the self-probes in any
given way from there on. -/
theorem exists_tended {ok : Deployment → DeployLabel → Prop} {objects : Hash → Option Bytes}
    {ls : List DeployLabel} (hrun : Run (step plan) ok (init objects) ls d) {P : Fate → Prop}
    (hfate : ∃ fate, P fate) :
    ∃ x, Tended plan x ∧ x.state ls.length = d ∧ ∀ m, ls.length ≤ m → Dealt P (x.label m) := by
  have hidle : ∀ d, (step plan d (.request (.tick 1))).isSome = true := fun _ => rfl
  obtain ⟨y, hy, hdealt, hfair⟩ :=
    Execution.exists_fair hidle (show Dealt P (.request (.tick 1)) from trivial)
      (shifts_enabled hfate) d
  obtain ⟨x, hinit, hcont⟩ := Execution.exists_continues hrun hy
  have hfair : ∀ c, x.Fair (Shifts c) := fun c => Execution.Fair.of_continues hcont (hfair c)
  have htime : ∀ t, ∃ n, t ≤ (x.state n).world.clock := by
    refine (hfair (.inr (.inr (.inr ())))).unbounded (fun _ => ⟨_, rfl, rfl⟩)
      (fun d => d.world.clock) (fun n => clock_of_step (x.next n)) ?_
    intro d l d' hl h
    obtain rfl : l = .request (.tick 1) := hl
    cases h
    exact Nat.lt_succ_self _
  refine ⟨x, ⟨⟨⟨objects, hinit⟩, fun i => hfair (.inl i), fun i => hfair (.inr (.inl i)), htime⟩,
    fun r => hfair (.inr (.inr (.inl r)))⟩, (hcont 0).1.trans hy, ?_⟩
  intro m hm
  obtain ⟨j, rfl⟩ := Nat.exists_eq_add_of_le hm
  rw [(hcont j).2]
  exact hdealt j

omit [RustChar] in
/-- Instance 0 is started, and whatever happens then it gets somewhere. -/
theorem startedInstance_ends : ∃ x : Execution (@Deployment.step asciiChars (examplePlan [])),
    @Attended asciiChars (examplePlan []) x ∧ (x.state 1).stages 0 ≠ .off ∧
    ∃ m, 1 ≤ m ∧ (((x.state m).stages 0).listening = true ∧ Fit exampleCli ∧
        Helped ((x.state m).boots 0) ∨
      ∃ stderr, (x.state m).stages 0 = .exited stderr ∧
        (¬ (Fit exampleCli ∧ Helped ((x.state m).boots 0)) ∨
          ∃ e, stderr = serverFailure e)) := by
  let _ : RustChar := asciiChars
  have hrun : Run (Deployment.step (examplePlan [])) (fun _ _ => True) (init fun _ => none)
      [.start 0] ((init fun _ => none).setStage 0 (.booting (boot exampleCli))) :=
    .snoc .nil trivial rfl
  obtain ⟨x, ⟨hx, -⟩, hstate, -⟩ := exists_tended hrun (P := fun _ => True) ⟨.answer, trivial⟩
  have hstarted : (x.state 1).stages 0 ≠ .off := by
    intro hoff
    rw [show x.state 1 = _ from hstate, stages_self] at hoff
    cases hoff
  exact ⟨x, hx, hstarted, every_boot_ends hx hstarted⟩

end Deployment

end NxCacheServer.System
