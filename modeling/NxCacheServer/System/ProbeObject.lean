import NxCacheServer.System.Refinement

/-!
# The probe object

The one object of the server's own. Every instance writes the same bytes there
when it starts, and nobody else reaches it; an instance whose startup probe has
been taken finds it by every later self-probe that S3 answers. So such a
self-probe never comes to the `HeadObject` of a missing key, which without
`s3:ListBucket` S3 would refuse, and no other key outside the grammar is ever
written (`probe_object`).

`Proven` is about an instance, and holds from the moment S3 has taken its startup
probe, before the process has heard of it. A later startup probe of another instance
puts the same bytes, so nothing is lost by it. What would be lost by a deletion of
the object from outside is lost, so that is excluded where it matters.

The invariant is `Kept`, and it needs `Contained` of
`NxCacheServer.System.Refinement`: requests have no business with the key, and
processes put nothing but the startup body. A self-probe that S3 fails has been told
nothing; only the answer that the object is missing counts against it (`SaysMissing`).
-/

namespace NxCacheServer.System

open NxCacheServer.Bin NxCacheServer.Domain NxCacheServer.Infra NxCacheServer.Server
  NxCacheServer.Lib

/-- A startup probe that was taken. -/
def Taken : BootEvent → Prop
  | ⟨.putObject _ _ _, .ok _⟩ => True
  | _ => False

/-- S3 has taken the startup probe, and the process has not heard of it yet. -/
def Stage.Accepted : Stage → Prop
  | .putting _ _ _ (some (.ok _)) _ => True
  | _ => False

instance : DecidablePred Stage.Accepted
  | .putting _ _ _ (some (.ok _)) _ => isTrue trivial
  | .putting _ _ _ (some (.error _)) _ => isFalse not_false
  | .putting _ _ _ none _ => isFalse not_false
  | .off => isFalse not_false
  | .booting _ => isFalse not_false
  | .running _ _ => isFalse not_false
  | .exited _ => isFalse not_false

/-- The reply says that there is no object. -/
def SaysMissing : (call : S3Call) → call.Reply → Prop
  | .headObject _, .error .notFound => True
  | _, _ => False

/-- The reply that waits for a self-probe says that its object is missing. -/
def Stage.ToldMissing : Stage → Prop
  | .running _ (.asking _ _ call (some reply) _) => SaysMissing call reply
  | _ => False

/-- The self-probe was told that the object is missing. -/
def ProbeEntry.SaysMissing (entry : ProbeEntry) : Prop :=
  match entry.event with
  | .did ⟨.s3 call, reply⟩ => System.SaysMissing call reply
  | _ => False

theorem Stage.Unticked.not_toldMissing {stage : Stage} (h : stage.Unticked) :
    ¬ stage.ToldMissing := by
  intro htold
  unfold Stage.ToldMissing at htold
  split at htold
  next => exact h
  next => exact htold

/-- S3 says so only if the object is not there. -/
theorem saysMissing_reply {fate : Fate} {bucket : Bucket} {eTagOf : Bytes → ETag} {call : S3Call}
    (h : SaysMissing call (fate.reply call (bucket.reply eTagOf call))) :
    bucket.objects call.key = none := by
  cases call with
  | headObject key =>
    rcases Bucket.reply_headObject bucket eTagOf key with ⟨-, hreply⟩ | ⟨hnone, -⟩
    · rw [hreply] at h
      cases fate <;> cases h
    · exact hnone
  | _ => cases h

namespace Deployment

variable {plan : Plan} {d d' : Deployment} {l : DeployLabel} {i : InstId}
  {objects : Hash → Option Bytes}

/-- The startup probe of `i` has been taken. -/
def Proven (d : Deployment) (i : InstId) : Prop :=
  (∃ ev ∈ d.boots i, Taken ev) ∨ (d.stages i).Accepted

/-- The object is what an instance that has started has made it, and its
self-probes have found it. -/
structure Kept (objects : Hash → Option Bytes) (d : Deployment) : Prop where
  object : d.world.bucket.objects probeKey = objects probeKey ∨
    d.world.bucket.objects probeKey = some startupBody
  proven : ∀ {i}, d.Proven i → d.world.bucket.objects probeKey = some startupBody
  waiting : ∀ {i}, d.Proven i → ¬ (d.stages i).ToldMissing
  told : ∀ {entry}, entry ∈ d.probes → d.Proven entry.inst → ¬ entry.SaysMissing

/-- The startup probe is there once it has taken effect. -/
theorem objects_putObject {key : Hash} {body : Bytes} :
    (d.putObject key body).world.bucket.objects key = some body := by
  simp [putObject, Bucket.setObject]

theorem kept_init : Kept objects (init objects) where
  object := Or.inl rfl
  proven h := by
    rcases h with ⟨ev, hmem, -⟩ | h
    · cases hmem
    · cases h
  waiting _ h := by cases h
  told h := by cases h

/-- An instance that goes on is not proven by that. -/
theorem proven_setStage {i' : InstId} {stage : Stage} (hi : (d.setStage i' stage).Proven i)
    (hstage : stage.Accepted → d.Proven i') : d.Proven i := by
  rcases hi with hboots | haccepted
  · exact Or.inl hboots
  · rw [stages_setStage] at haccepted
    split at haccepted
    next heq => exact heq ▸ hstage haccepted
    next => exact Or.inr haccepted

/-- An answer proves it only if it says that the probe was taken. -/
theorem proven_noteBoot {i' : InstId} {stage : Stage} {ev : BootEvent}
    (hi : ((d.setStage i' stage).noteBoot i' ev).Proven i) (hev : Taken ev → d.Proven i')
    (hstage : ¬ stage.Accepted) : d.Proven i := by
  rcases hi with ⟨ev', hmem, htaken⟩ | haccepted
  · rw [boots_noteBoot, boots_setStage] at hmem
    split at hmem
    next heq =>
      subst heq
      rcases List.mem_append.mp hmem with hold | hnew
      · exact Or.inl ⟨ev', hold, htaken⟩
      · rw [List.mem_singleton.mp hnew] at htaken
        exact hev htaken
    next => exact Or.inl ⟨ev', hmem, htaken⟩
  · rw [stages_noteBoot, stages_setStage] at haccepted
    split at haccepted
    next => exact absurd haccepted hstage
    next => exact Or.inr haccepted

variable [RustChar]

/-- A step leaves the probe object as it is, or writes it. -/
theorem Contained.object (hd : Contained plan d) (hno : ¬ ValidHash probeKey)
    (hl : l ≠ .request (.delete probeKey)) (h : d.step plan l = some d') :
    d'.world.bucket.objects probeKey = d.world.bucket.objects probeKey ∨
      d'.world.bucket.objects probeKey = some startupBody := by
  cases step_cases h with
  | @request l world hadmits hstep =>
    exact Or.inl (World.objects_step hd.keyed hno (fun heq => hl (heq ▸ rfl)) hstep)
  | putServed hstage =>
    obtain ⟨rfl, rfl⟩ := hd.follows.putting hstage
    exact Or.inr objects_putObject
  | late hasked =>
    obtain ⟨rfl, rfl⟩ := Prod.mk.inj (hd.asked _ hasked)
    exact Or.inr objects_putObject
  | probeServed hstage _ =>
    exact Or.inl (congrArg (fun bucket => bucket.objects probeKey)
      (hd.punctual.looks hstage plan.eTagOf))
  | _ => exact Or.inl rfl

/-- An instance comes to be proven by S3 taking its startup probe. -/
theorem Contained.proven (hd : Contained plan d) (h : d.step plan l = some d')
    (hi : d'.Proven i) : d.Proven i ∨ (d.stages i).Unticked ∧ (d'.stages i).Unticked ∧
      d'.world.bucket.objects probeKey = some startupBody := by
  cases step_cases h with
  | request _ _ | late _ => exact Or.inl hi
  | start _ | serves _ | exits _ | puts _ | putFailed _ | binds _ | bindFails _ | ticks _ _
  | finishes _ | calls _ | acts _ _ | probeServed _ _ | probeFailed _ _ | probeDelivered _ =>
    exact Or.inl (proven_setStage hi fun hno => by cases hno)
  | @boots i' region e resp k hstage hlocal =>
    refine Or.inl (proven_noteBoot hi ?_ not_false)
    intro htaken
    cases e with
    | putObject bucket key body => exact absurd rfl (hlocal bucket key body)
    | _ => cases htaken
  | @putServed i' bucket key body k hstage =>
    by_cases heq : i = i'
    · subst heq
      obtain ⟨rfl, rfl⟩ := hd.follows.putting hstage
      refine Or.inr ⟨by rw [hstage]; trivial, ?_, objects_putObject⟩
      rw [show ((d.setStage i _).putObject probeKey startupBody).stages = (d.setStage i _).stages
        from rfl, stages_setStage, if_pos rfl]
      trivial
    · left
      rcases hi with hboots | haccepted
      · exact Or.inl hboots
      · rw [show ((d.setStage i' _).putObject key body).stages = (d.setStage i' _).stages from rfl,
          stages_setStage, if_neg heq] at haccepted
        exact Or.inr haccepted
  | @putDelivered i' bucket key body reply k hstage =>
    refine Or.inl (proven_noteBoot hi ?_ not_false)
    intro htaken
    cases reply with
    | ok _ => exact Or.inr (by rw [hstage]; trivial)
    | error failure => cases htaken

/-- A self-probe is told that its object is missing where it is. -/
theorem Contained.toldMissing (hd : Contained plan d) (h : d.step plan l = some d')
    (hi : (d'.stages i).ToldMissing) :
    (d.stages i).ToldMissing ∨ d.world.bucket.objects probeKey = none := by
  have hset : ∀ {i' : InstId} {stage : Stage}, ((d.setStage i' stage).stages i).ToldMissing →
      (stage.ToldMissing → d.world.bucket.objects probeKey = none) →
      (d.stages i).ToldMissing ∨ d.world.bucket.objects probeKey = none := by
    intro i' stage htold hstage
    rw [stages_setStage] at htold
    split at htold
    next => exact Or.inr (hstage htold)
    next => exact Or.inl htold
  cases step_cases h with
  | request _ _ | late _ => exact Or.inl hi
  | start _ | serves _ | exits _ | boots _ _ | puts _ | putServed _ | putFailed _ | putDelivered _
  | bindFails _ | ticks _ _ | finishes _ | calls _ | acts _ _ | probeDelivered _ =>
    exact hset hi fun hno => by cases hno
  | @binds i' prober hstage =>
    left
    rw [stages_setStage] at hi
    split at hi
    next heq =>
      rw [heq, hstage]
      cases prober with
      | asking ticker due call reply k => cases reply <;> exact hi
      | _ => exact hi
    next => exact hi
  | @probeServed i' listening ticker due fate call k hstage _
  | @probeFailed i' listening ticker due fate call k hstage _ =>
    refine hset hi fun hmissing => ?_
    have hnone := saysMissing_reply hmissing
    rw [hd.punctual.asks hstage] at hnone
    exact hnone

/-- What a self-probe has heard it has been told. -/
theorem says_of_step {entry : ProbeEntry} (h : d.step plan l = some d') (hmem : entry ∈ d'.probes)
    (hmissing : entry.SaysMissing) : entry ∈ d.probes ∨ (d.stages entry.inst).ToldMissing := by
  cases step_cases h with
  | ticks _ _ | finishes _ | calls _ =>
    rcases List.mem_cons.mp hmem with rfl | hold
    · cases hmissing
    · exact Or.inl hold
  | @acts i' listening ticker due e resp k hlocal hstage =>
    rcases List.mem_cons.mp hmem with rfl | hold
    · cases e with
      | s3 call => exact absurd rfl (hlocal call)
      | _ => cases hmissing
    · exact Or.inl hold
  | probeDelivered hstage =>
    rcases List.mem_cons.mp hmem with rfl | hold
    · right
      rw [hstage]
      exact hmissing
    · exact Or.inl hold
  | _ => exact Or.inl hmem

/-- Through one step: only startup probes write the object. -/
theorem Kept.step (hk : Kept objects d) (hd : Contained plan d) (hno : ¬ ValidHash probeKey)
    (hl : l ≠ .request (.delete probeKey)) (h : d.step plan l = some d') : Kept objects d' where
  object := by
    rcases hd.object hno hl h with hsame | hwritten
    · rw [hsame]
      exact hk.object
    · exact Or.inr hwritten
  proven := by
    intro i hi
    rcases hd.proven h hi with hold | ⟨-, -, hwritten⟩
    · rcases hd.object hno hl h with hsame | hwritten
      · rw [hsame]
        exact hk.proven hold
      · exact hwritten
    · exact hwritten
  waiting := by
    intro i hi htold
    rcases hd.proven h hi with hold | ⟨-, hunticked, -⟩
    · rcases hd.toldMissing h htold with hbefore | hnone
      · exact hk.waiting hold hbefore
      · rw [hk.proven hold] at hnone
        cases hnone
    -- an instance that has just been proven has not got so far
    · exact hunticked.not_toldMissing htold
  told := by
    intro entry hmem hi hmissing
    rcases says_of_step h hmem hmissing with hold | htold
    · rcases hd.proven h hi with hproven | ⟨hunticked, -, -⟩
      · exact hk.told hold hproven hmissing
      · have hentry : entry ∈ d.entries entry.inst := by simp [entries, hold]
        rw [(hd.punctual entry.inst).unticked hunticked] at hentry
        cases hentry
    · rcases hd.proven h hi with hproven | ⟨hunticked, -, -⟩
      · exact hk.waiting hproven htold
      · exact hunticked.not_toldMissing htold

/-- No step writes another object outside the grammar. -/
theorem Contained.others (hd : Contained plan d) {key : Hash} (hno : ¬ ValidHash key)
    (hne : key ≠ probeKey) (hl : l ≠ .request (.delete key)) (h : d.step plan l = some d') :
    d'.world.bucket.objects key = d.world.bucket.objects key := by
  cases step_cases h with
  | @request l world hadmits hstep =>
    exact World.objects_step hd.keyed hno (fun heq => hl (heq ▸ rfl)) hstep
  | putServed hstage =>
    obtain ⟨rfl, -⟩ := hd.follows.putting hstage
    exact Function.update_of_ne hne _ _
  | late hasked =>
    obtain ⟨rfl, -⟩ := Prod.mk.inj (hd.asked _ hasked)
    exact Function.update_of_ne hne _ _
  | probeServed hstage _ =>
    exact congrArg (fun bucket => bucket.objects key) (hd.punctual.looks hstage plan.eTagOf)
  | _ => rfl

/-- What S3 has taken of a startup probe it has taken for good. -/
theorem Proven.step (hi : d.Proven i) (h : d.step plan l = some d') : d'.Proven i := by
  have hset : ∀ {i' : InstId} {stage : Stage}, ¬ (d.stages i').Accepted →
      (d.setStage i' stage).Proven i := by
    intro i' stage hno
    rcases hi with hboots | haccepted
    · exact Or.inl hboots
    · refine Or.inr ?_
      rw [stages_setStage, if_neg]
      · exact haccepted
      · rintro rfl
        exact hno haccepted
  have hnote : ∀ {i' : InstId} {stage : Stage} {ev : BootEvent},
      ((d.stages i').Accepted → Taken ev) → ((d.setStage i' stage).noteBoot i' ev).Proven i := by
    intro i' stage ev hev
    by_cases heq : i = i'
    · subst heq
      rcases hi with ⟨ev', hmem, htaken⟩ | haccepted
      · exact Or.inl ⟨ev', by simp [hmem], htaken⟩
      · exact Or.inl ⟨ev, by simp, hev haccepted⟩
    · rcases hi with hboots | haccepted
      · exact Or.inl (by simpa [heq] using hboots)
      · exact Or.inr (by simpa [heq] using haccepted)
  cases step_cases h with
  | request _ _ | late _ => exact hi
  | start hstage | serves hstage | exits hstage | puts hstage | putServed hstage
  | putFailed hstage | binds hstage | bindFails hstage | ticks hstage _ | finishes hstage
  | calls hstage | acts _ hstage | probeServed hstage _ | probeFailed hstage _
  | probeDelivered hstage => exact hset (by rw [hstage]; exact not_false)
  | boots hstage _ => exact hnote fun hno => by rw [hstage] at hno; cases hno
  | @putDelivered i' bucket key body reply k hstage =>
    refine hnote fun haccepted => ?_
    rw [hstage] at haccepted
    cases reply with
    | ok _ => trivial
    | error failure => cases haccepted

/-- **The probe object.** Unless it is deleted from outside, it is what it was or
the startup probe, and once it is the startup probe it stays that. It is that as
soon as S3 has taken the startup probe of any instance, and no self-probe of such
an instance is ever told that it is missing. What is under any other key outside
the grammar is never written at all. -/
theorem probe_object (hascii : RustChar.OnAscii) {ok : Deployment → DeployLabel → Prop}
    {ls₀ ls : List DeployLabel} {d₀ : Deployment}
    (hrun₀ : Run (step plan) ok (init objects) ls₀ d₀) (hrun : Run (step plan) ok d₀ ls d) :
    (.request (.delete probeKey) ∉ ls₀ ++ ls →
      (d.world.bucket.objects probeKey = objects probeKey ∨
        d.world.bucket.objects probeKey = some startupBody) ∧
      (d₀.world.bucket.objects probeKey = some startupBody →
        d.world.bucket.objects probeKey = some startupBody) ∧
      ∀ i, d₀.Proven i → d.world.bucket.objects probeKey = some startupBody ∧
        ∀ entry ∈ d.probes, entry.inst = i → ¬ entry.SaysMissing) ∧
    ∀ key, ¬ ValidHash key → key ≠ probeKey → .request (.delete key) ∉ ls₀ ++ ls →
      d.world.bucket.objects key = objects key := by
  have hprobe : ¬ ValidHash probeKey :=
    fun hvalid => (validHash_iff.mp hvalid).ne_probeKey hascii rfl
  have hall := hrun₀.trans hrun
  constructor
  · intro hno
    have hkept : Contained plan d ∧ Kept objects d :=
      hall.invariant_without (I := fun d => Contained plan d ∧ Kept objects d)
        (fun _ _ _ hd hl h => ⟨hd.1.step h, hd.2.step hd.1 hprobe hl h⟩) hno
        ⟨contained_init, kept_init⟩
    refine ⟨hkept.2.object, ?_, ?_⟩
    · intro hwritten
      have hlater : Contained plan d ∧ d.world.bucket.objects probeKey = some startupBody := by
        refine hrun.invariant_without
          (I := fun d => Contained plan d ∧ d.world.bucket.objects probeKey = some startupBody)
          ?_ (fun hmem => hno (List.mem_append_right _ hmem)) ⟨?_, hwritten⟩
        · intro d l d' hd hl h
          exact ⟨hd.1.step h, (hd.1.object hprobe hl h).elim (fun hsame => hsame.trans hd.2) id⟩
        · exact hrun₀.invariant (fun _ _ _ hd _ h => hd.step h) contained_init
      exact hlater.2
    · intro i hi
      have hproven : d.Proven i :=
        hrun.invariant (I := fun d => d.Proven i) (fun _ _ _ hi _ h => hi.step h) hi
      refine ⟨hkept.2.proven hproven, ?_⟩
      intro entry hmem hinst
      exact hkept.2.told hmem (hinst ▸ hproven)
  · intro key hvalid hne hno
    have hsame : Contained plan d ∧ d.world.bucket.objects key = objects key :=
      hall.invariant_without
        (I := fun d => Contained plan d ∧ d.world.bucket.objects key = objects key)
        (fun _ _ _ hd hl h => ⟨hd.1.step h, (hd.1.others hvalid hne hl h).trans hd.2⟩) hno
        ⟨contained_init, rfl⟩
    exact hsame.2

/-- An instance starts, and S3 takes its startup probe. -/
def acceptedProbe : List DeployLabel := [.start 0, .boot 0 none, .servePut 0 (.ok ())]

/-- It hears of it and listens, and a self-probe is answered; meanwhile other keys
are deleted, valid and not. -/
def answeredProbe : List DeployLabel :=
  [.deliverPut 0, .boot 0 none, .boot 0 none, .bind 0 (.ok ()), .request (.delete "abc"),
    .request (.delete "/"), .tick 0, .probe 0, .probe 0, .serveProbe 0 .answer, .deliverProbe 0]

omit [RustChar] in
/-- An instance whose startup probe has been taken finds its object. -/
theorem answeredProbe_found : @RustChar.OnAscii latinChars ∧
    ∃ d₀ d, Run (@Deployment.step latinChars (examplePlan [])) (fun _ _ => True)
        (init fun _ => none) acceptedProbe d₀ ∧ (d₀.stages 0).Accepted ∧
      Run (@Deployment.step latinChars (examplePlan [])) (fun _ _ => True) d₀ answeredProbe d ∧
      ⟨0, 0, 0, .did ⟨.s3 (.headObject probeKey), (Except.ok () : Except HeadError Unit)⟩⟩ ∈
        d.probes ∧
      d.world.bucket.objects probeKey = some startupBody ∧
      ∀ entry ∈ d.probes, entry.inst = 0 → ¬ entry.SaysMissing := by
  let _ : RustChar := latinChars
  obtain ⟨d₀, hrun₀, haccepted, hrest⟩ : ∃ d₀, Run (Deployment.step (examplePlan []))
      (fun _ _ => True) (init fun _ => none) acceptedProbe d₀ ∧ (d₀.stages 0).Accepted ∧
      (exec (Deployment.step (examplePlan [])) (fun _ _ => true) d₀ answeredProbe).any
        (fun d => ⟨0, 0, 0, .did ⟨.s3 (.headObject probeKey),
          (Except.ok () : Except HeadError Unit)⟩⟩ ∈ d.probes) = true :=
    exists_run_of_exec (fun _ _ _ => trivial)
      (show (exec _ (fun _ _ => true) _ _).any _ = true by decide)
  obtain ⟨d, hrun, hfound⟩ := exists_run_of_exec (fun _ _ _ => trivial) hrest
  obtain ⟨-, -, htaken⟩ := (probe_object latinChars_onAscii hrun₀ hrun).1 (by decide)
  obtain ⟨hobject, hfinds⟩ := htaken 0 (Or.inr haccepted)
  exact ⟨latinChars_onAscii, d₀, d, hrun₀, haccepted, hrun, hfound, hobject, hfinds⟩

end Deployment

end NxCacheServer.System
