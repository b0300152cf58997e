import NxCacheServer.System.Deployment
import NxCacheServer.System.Noninterference

/-!
# Who gets to serve, and who gets to write

An instance takes requests only after its `main` has gone through, so whatever
is served is served by a process whose configuration is fit and whose startup
probe S3 has not refused; and what such a process writes to the bucket, apart
from that probe, it writes for a PUT with its service token (`served_by_fit`).

`Follows` ties a stage to what `main` has been answered so far, by the events in
`boots`, so the theorem about all boots (`Bin.boot_serves_iff`) can be used of a
process in a run. `Authorised` is about requests alone, and says who has called S3
for what.
-/

namespace NxCacheServer.System

open NxCacheServer.Bin NxCacheServer.Domain NxCacheServer.Infra NxCacheServer.Server
  NxCacheServer.Lib

namespace World

variable [RustChar] {env : Env} {w w' : World} {l : Label}

/-- Requests that only look, and PUTs with the service token. -/
structure Authorised (env : Env) (w : World) : Prop where
  tracks : Tracks env w
  called : ∀ {t r call}, ⟨t, r, .called call⟩ ∈ w.trace → Looks call ∨ env.Storing r

theorem authorised_init {objects : Hash → Option Bytes} : Authorised env (init objects) where
  tracks := tracks_init
  called h := by cases h

/-- What is asked of S3 is allowed to the role of the request. -/
theorem Authorised.step (hw : Authorised env w) (h : w.step env l = some w') :
    Authorised env w' where
  tracks := hw.tracks.step h
  called := by
    intro t r call hmem
    rcases trace_of_step h with heq | ⟨r', event, heq, hoccurs⟩
    · rw [heq] at hmem
      exact hw.called hmem
    · rw [heq] at hmem
      rcases List.mem_cons.mp hmem with hnew | hold
      · cases hnew
        cases hoccurs with
        | called htask =>
          rcases writer_of_allows (hw.tracks.allows htask) with
            ⟨hash, hrole⟩ | ⟨key, rfl⟩ | ⟨key, rfl⟩
          · exact Or.inr (storing_of_writer hrole)
          · exact Or.inl trivial
          · exact Or.inl trivial
      · exact hw.called hold

/-- A request comes into being by arriving. -/
theorem absent_of_step {r : ReqId} (h : w.step env l = some w') (hl : l ≠ .arrive r)
    (htask : w.tasks r = .absent) : w'.tasks r = .absent := by
  have hother : ∀ {r' : ReqId} {task task' : Task}, w.tasks r' = task → task ≠ .absent →
      (w.setTask r' task').tasks r = .absent := by
    intro r' task task' htask' hne
    rw [tasks_setTask, if_neg ?_]
    · exact htask
    · intro heq
      subst heq
      exact hne (htask'.symm.trans htask)
  cases step_cases h with
  | tick _ | wait _ _ | stray _ | delete _ => exact htask
  | @arrive r' _ =>
    rw [tasks_record, tasks_setTask, if_neg ?_]
    · exact htask
    · intro heq
      exact hl (heq ▸ rfl)
  | answer ht | call ht | act ht _ | served ht _ | failed ht _ | deliver ht | cancelReady ht
  | cancelCalling ht | cancelServed ht => exact hother ht fun hno => by cases hno

/-- What happens happens to a request that arrives, or that was there. -/
theorem entry_of_step {entry : Entry} (h : w.step env l = some w') (hmem : entry ∈ w'.trace) :
    entry ∈ w.trace ∨ l = .arrive entry.req ∨ w.tasks entry.req ≠ .absent := by
  cases step_cases h with
  | tick _ | wait _ _ | served _ _ | failed _ _ | cancelReady _ | cancelCalling _
  | cancelServed _ | stray _ | delete _ => exact Or.inl hmem
  | arrive _ =>
    rcases List.mem_cons.mp hmem with rfl | hold
    · exact Or.inr (Or.inl rfl)
    · exact Or.inl hold
  | answer ht | call ht | act ht _ | deliver ht =>
    rcases List.mem_cons.mp hmem with rfl | hold
    · exact Or.inr (Or.inr (by rw [ht]; simp))
    · exact Or.inl hold

end World

namespace Deployment

variable {plan : Plan} {d d' : Deployment} {l : DeployLabel} {i : InstId} {stage : Stage}

/-! ## Booting -/

/-- Where `main` of `cli` is, `h` being its history. -/
def Reached (cli : AwsCli) (h : List BootEvent) : Stage → Prop
  | .off => h = []
  | .booting p => Prog.After (boot cli) h p
  | .putting bucket key body _ k => Prog.After (boot cli) h (.act (.putObject bucket key body) k)
  | .running _ _ => ∃ storage, Prog.After (boot cli) h (.done (.ok storage))
  | .exited _ => True

/-- Every `main` is where its history has led it. -/
def Follows (plan : Plan) (d : Deployment) : Prop :=
  ∀ i, Reached (plan.cli i) (d.boots i) (d.stages i)

theorem follows_init {objects : Hash → Option Bytes} : Follows plan (init objects) := fun _ => rfl

/-- An instance that goes on without an answer. -/
theorem Follows.setStage (hd : Follows plan d) (hi : Reached (plan.cli i) (d.boots i) stage) :
    Follows plan (d.setStage i stage) := by
  intro i'
  rw [stages_setStage, boots_setStage]
  split
  next heq =>
    rw [heq]
    exact hi
  next => exact hd i'

/-- An instance that is answered, with the answer on record. -/
theorem Follows.noteBoot (hd : Follows plan d) {ev : BootEvent}
    (hi : Reached (plan.cli i) (d.boots i ++ [ev]) stage) :
    Follows plan ((d.setStage i stage).noteBoot i ev) := by
  intro i'
  rw [stages_noteBoot, stages_setStage, boots_noteBoot, boots_setStage]
  by_cases heq : i' = i
  · rw [if_pos heq, if_pos heq, heq]
    exact hi
  · rw [if_neg heq, if_neg heq]
    exact hd i'

/-- An instance that runs is fit, and S3 has not refused its startup probe. -/
theorem Follows.running (hd : Follows plan d) {listening : Bool} {prober : Prober}
    (hstage : d.stages i = .running listening prober) :
    Fit (plan.cli i) ∧ Helped (d.boots i) ∧ ∃ ev ∈ d.boots i, ev.1 = startupProbe (plan.cli i) := by
  have hi := hd i
  rw [hstage] at hi
  obtain ⟨storage, hafter⟩ := hi
  have hends := Prog.wp_after (booting_unpromising _) (boot_booting _) hafter
  rw [booting_after, List.nil_append] at hends
  obtain ⟨hfit, hhelped⟩ := hends.1.mp rfl
  exact ⟨hfit, hhelped, hends.2 rfl⟩

variable [RustChar]

/-- A process is always what is left of `main` after its answers. -/
theorem Follows.step (hd : Follows plan d) (h : d.step plan l = some d') : Follows plan d' := by
  have hstage : ∀ {i stage}, d.stages i = stage → Reached (plan.cli i) (d.boots i) stage :=
    fun heq => heq ▸ hd _
  cases step_cases h with
  | request _ _ => exact hd
  | start hoff =>
    refine hd.setStage ?_
    rw [show d.boots _ = [] from hstage hoff]
    exact .nil
  | serves hdone => exact hd.setStage ⟨_, hstage hdone⟩
  | exits _ => exact hd.setStage trivial
  | boots hact _ => exact hd.noteBoot (Prog.After.snoc _ (hstage hact))
  | puts hact => exact hd.setStage (hstage hact :)
  | putServed hput => exact hd.setStage (hstage hput :)
  | putFailed hput => exact hd.setStage (hstage hput :)
  | @putDelivered i bucket key body reply k hput =>
    have hafter : Prog.After (boot (plan.cli i)) (d.boots i)
        (.act (.putObject bucket key body) k) := hstage hput
    have hsnoc : Prog.After (boot (plan.cli i))
        (d.boots i ++ [⟨.putObject bucket key body, reply⟩]) (k reply) := .snoc _ hafter
    exact hd.noteBoot hsnoc
  | late _ => exact hd
  | binds hrunning => exact hd.setStage (hstage hrunning :)
  | bindFails _ => exact hd.setStage trivial
  | ticks hrunning _ | finishes hrunning | calls hrunning | acts _ hrunning
  | probeDelivered hrunning => exact hd.setStage (hstage hrunning :)
  | probeServed hrunning _ | probeFailed hrunning _ => exact hd.setStage (hstage hrunning :)

/-! ## Requests -/

/-- A step of a deployment is one of its requests, or changes nothing of them but
the bucket. -/
theorem world_of_step (h : d.step plan l = some d') :
    (∃ l', l = .request l' ∧ d.world.step plan.env l' = some d'.world) ∨
      ∃ bucket, d'.world = { d.world with bucket := bucket } := by
  cases step_cases h with
  | request _ hstep => exact Or.inl ⟨_, rfl, hstep⟩
  | putServed _ | late _ | probeServed _ _ => exact Or.inr ⟨_, rfl⟩
  | _ => exact Or.inr ⟨d.world.bucket, rfl⟩

/-- What the steps of requests preserve, and the bucket does not matter to, holds
in every deployment. -/
theorem world_invariant {I : World → Prop} {ok : Deployment → DeployLabel → Prop}
    {objects : Hash → Option Bytes} {ls : List DeployLabel}
    (hstep : ∀ w l w', I w → w.step plan.env l = some w' → I w')
    (hbucket : ∀ w bucket, I w → I { w with bucket := bucket }) (hinit : I (World.init objects))
    (hrun : Run (step plan) ok (init objects) ls d) : I d.world := by
  refine hrun.invariant (I := fun d => I d.world) ?_ hinit
  intro d l d' hd _ h
  rcases world_of_step h with ⟨l', -, hw⟩ | ⟨bucket, hw⟩
  · exact hstep _ _ _ hd hw
  · rw [hw]
    exact hbucket _ _ hd

/-- Requests are at instances that listen. -/
structure Admitted (plan : Plan) (d : Deployment) : Prop where
  tasks : ∀ {r}, d.world.tasks r ≠ .absent → (d.stages (plan.inst r)).listening = true
  trace : ∀ {entry}, entry ∈ d.world.trace → (d.stages (plan.inst entry.req)).listening = true

omit [RustChar] in
theorem admitted_init {objects : Hash → Option Bytes} : Admitted plan (init objects) where
  tasks h := absurd rfl h
  trace h := by cases h

omit [RustChar] in
/-- Once an instance listens, it does not stop. -/
theorem listening_setStage {i' : InstId} (hi : (d.stages i).listening = true)
    (hkeeps : (d.stages i').listening = true → stage.listening = true) :
    ((d.setStage i' stage).stages i).listening = true := by
  rw [stages_setStage]
  split
  next heq =>
    rw [heq] at hi
    exact hkeeps hi
  next => exact hi

/-- An instance that listens goes on listening. -/
theorem listening_of_step (h : d.step plan l = some d') (hi : (d.stages i).listening = true) :
    (d'.stages i).listening = true := by
  cases step_cases h with
  | request _ _ | late _ => exact hi
  | start hstage | serves hstage | exits hstage | boots hstage _ | puts hstage
  | putServed hstage | putFailed hstage | putDelivered hstage | bindFails hstage =>
    refine listening_setStage hi fun hlistening => ?_
    rw [hstage] at hlistening
    cases hlistening
  | binds hstage => exact listening_setStage hi fun _ => rfl
  | ticks hstage _ | finishes hstage | calls hstage | acts _ hstage | probeServed hstage _
  | probeFailed hstage _ | probeDelivered hstage =>
    refine listening_setStage hi fun hlistening => ?_
    rw [hstage] at hlistening
    exact hlistening

/-- A request comes to an instance that listens, and so everything about it happens
there. -/
theorem Admitted.step (hd : Admitted plan d) (h : d.step plan l = some d') : Admitted plan d' := by
  have hkeep : ∀ {i}, (d.stages i).listening = true → (d'.stages i).listening = true :=
    fun hi => listening_of_step h hi
  rcases world_of_step h with ⟨l', rfl, hw⟩ | ⟨bucket, hw⟩
  · have hadmits : d.admits plan l' = true := by
      cases step_cases h with
      | request hadmits _ => exact hadmits
    refine ⟨fun {r} htask' => hkeep ?_, fun {entry} hmem => hkeep ?_⟩
    · by_cases hl : l' = .arrive r
      · rw [hl] at hadmits
        exact hadmits
      · exact hd.tasks fun htask => htask' (World.absent_of_step hw hl htask)
    · rcases World.entry_of_step hw hmem with hold | rfl | htask
      · exact hd.trace hold
      · exact hadmits
      · exact hd.tasks htask
  · refine ⟨fun {r} htask' => hkeep (hd.tasks ?_), fun {entry} hmem => hkeep (hd.trace ?_)⟩
    · rw [hw] at htask'
      exact htask'
    · rw [hw] at hmem
      exact hmem

/-- **Who serves, and who writes.** Whatever happens to a request, its instance has
a fit configuration and has put its startup probe, which S3 has not refused with a
4xx (it may not have answered it at all); and of S3 the request asks for no more
than a look, or it is a PUT with the service token of its instance. -/
theorem served_by_fit {ok : Deployment → DeployLabel → Prop} {objects : Hash → Option Bytes}
    {ls : List DeployLabel} (hrun : Run (step plan) ok (init objects) ls d) {entry : Entry}
    (hmem : entry ∈ d.world.trace) :
    Fit (plan.cli (plan.inst entry.req)) ∧ Helped (d.boots (plan.inst entry.req)) ∧
      (∃ ev ∈ d.boots (plan.inst entry.req), ev.1 = startupProbe (plan.cli (plan.inst entry.req))) ∧
      ∀ call, entry.event = .called call → Looks call ∨
        (plan.request entry.req).method = .put ∧ (plan.request entry.req).authorization =
          some (bearerPrefix ++
            tokenBytes (plan.cli (plan.inst entry.req)).server.serviceAccessToken) := by
  obtain ⟨hfollows, hadmitted⟩ : Follows plan d ∧ Admitted plan d :=
    hrun.invariant (I := fun d => Follows plan d ∧ Admitted plan d)
      (fun _ _ _ hd _ h => ⟨hd.1.step h, hd.2.step h⟩) ⟨follows_init, admitted_init⟩
  have hauthorised : World.Authorised plan.env d.world :=
    world_invariant (fun _ _ _ hw h => hw.step h) (fun _ _ hw => ⟨hw.tracks, hw.called⟩)
      World.authorised_init hrun
  have hlistening := hadmitted.trace hmem
  unfold Stage.listening at hlistening
  split at hlistening
  next listening prober hstage =>
    obtain ⟨hfit, hhelped, hprobe⟩ := hfollows.running hstage
    refine ⟨hfit, hhelped, hprobe, ?_⟩
    intro call hcall
    obtain ⟨t, r, event⟩ := entry
    dsimp only at hcall
    subst hcall
    refine (hauthorised.called hmem).imp_right ?_
    intro hstoring
    exact ⟨hstoring.1, Request.authorization_of_bearerToken hstoring.2⟩
  next => cases hlistening

private def onePut : Plan := examplePlan [(0, examplePut [1, 2, 3])]

/-- Instance 0 starts though S3 does not answer its startup probe, and takes a PUT. -/
def unansweredStart : List DeployLabel :=
  [.start 0, .boot 0 none, .servePut 0 (.error ⟨⟨none, none, "TimeoutError"⟩, none⟩),
    .deliverPut 0, .boot 0 none, .boot 0 none, .boot 0 none, .boot 0 none, .bind 0 (.ok ())] ++
  ([.arrive 0, .run 0, .serve 0 .answer, .deliver 0, .run 0, .run 0, .run 0] : List Label).map
    .request

omit [RustChar] in
/-- The PUT writes, so it has the service token. -/
theorem unansweredStart_served : ∃ d, Run (@Deployment.step asciiChars onePut)
    (fun _ _ => True) (init fun _ => none) unansweredStart d ∧
      ⟨0, 0, .called (.putObject "abc" [1, 2, 3])⟩ ∈ d.world.trace ∧
      Fit exampleCli ∧ Helped (d.boots 0) ∧
      (onePut.request 0).authorization = some (bearerPrefix ++ tokenBytes "rw") := by
  let _ : RustChar := asciiChars
  obtain ⟨d, hrun, hmem⟩ : ∃ d, Run (Deployment.step onePut) (fun _ _ => True)
      (init fun _ => none) unansweredStart d ∧
      ⟨0, 0, .called (.putObject "abc" [1, 2, 3])⟩ ∈ d.world.trace :=
    exists_run_of_exec (fun _ _ _ => trivial)
      (show (exec _ (fun _ _ => true) _ _).any _ = true by decide)
  obtain ⟨hfit, hhelped, -, hwrites⟩ := served_by_fit hrun hmem
  rcases hwrites _ rfl with hlooks | ⟨-, htoken⟩
  · exact hlooks.elim
  · exact ⟨d, hrun, hmem, hfit, hhelped, htoken⟩

end Deployment

end NxCacheServer.System
