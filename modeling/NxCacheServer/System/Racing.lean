import NxCacheServer.System.ErrorFree
import NxCacheServer.System.Presence

/-!
# Racing writers

Any number of PUTs of one key on any number of instances, in any order with
each other and with everything else; S3 answers every request, no client goes
away and nothing is deleted. Whoever writes the object learns that it has
(`Landed`), so it is answered 200, and the object is always one of those
bodies.

Answers are about being answered at all, so `Finishes` is needed: from any state of
such a run a writer can be taken to its answer by steps that belong to it
(`Driving`). That the object is one of the bodies is `Racing.authored`; who the
author is does not matter, and it may be somebody whose answer is still to come.

The three parts of the theorem use different halves of the invariant. Every PUT is
answered 200 or 409: `Smooth`, and nobody is dropped. Those that come after an answer
are answered 409: `Evident` of `NxCacheServer.System.Presence`, as a look that comes
later sees the object. And there is one body in the end: `authored`.
-/

namespace NxCacheServer.System

open NxCacheServer.Domain NxCacheServer.Infra NxCacheServer.Server NxCacheServer.Lib

/-- The steps that take `q` along. -/
def Label.Drives (q : ReqId) : Label → Prop
  | .tick _ => True
  | .run r => r = q
  | .serve r fate => r = q ∧ fate = .answer
  | .deliver r => r = q
  | _ => False

/-- An action that waits neither for S3 nor for the client. -/
def Immediate : Act → Prop
  | .s3 _ => False
  | .read _ _ => False
  | _ => True

namespace World

variable [RustChar] {env : Env} {initial : Hash → Option Bytes} {w w' : World} {l : Label}
  {q : ReqId} {call : S3Call} {key : Hash} {response : Response}

/-! ## A request that is taken along is answered -/

/-- `q` comes to its answer by steps that take it along. -/
def Finishes (env : Env) (w : World) (q : ReqId) : Prop :=
  ∃ ls w' response, Run (World.step env) (fun _ l => l.Drives q) w ls w' ∧
    w'.tasks q = .answered response

/-- If it comes to its answer after a step that takes it along, it does from before.
-/
theorem Finishes.cons (h : w.step env l = some w') (hl : l.Drives q) (hf : Finishes env w' q) :
    Finishes env w q := by
  obtain ⟨ls, w'', response, hrun, hans⟩ := hf
  have hone : Run (World.step env) (fun _ l => l.Drives q) w [l] w' := Run.single hl h
  exact ⟨[l] ++ ls, w'', response, hone.trans hrun, hans⟩

theorem run_act {e : Act} {resp : e.Resp} {k : e.Resp → Async Response} {cache : ProbeCache}
    (htask : w.tasks q = .ready (.act e k))
    (hl : localStep (w.caches (env.inst q)) q w.clock e = some (cache, some resp)) :
    ∃ w', w.step env (.run q) = some w' ∧ w'.tasks q = .ready (k resp) := by
  rw [World.step, htask]
  cases e with
  | s3 call => cases hl
  | _ =>
    dsimp only
    rw [hl]
    exact ⟨_, rfl, by simp⟩

/-- What holds as long as only `q` is taken along, and leaves it waiting for
nobody but S3 and its own client. -/
structure Driving (env : Env) (q : ReqId) (I : World → Prop) : Prop where
  step : ∀ {w w' l}, I w → w.step env l = some w' → l.Drives q → I w'
  enabled : ∀ {w e k}, I w → w.tasks q = .ready (.act e k) → Immediate e →
    ∃ cache resp, localStep (w.caches (env.inst q)) q w.clock e = some (cache, some resp)

namespace Driving

variable {I : World → Prop} (hI : Driving env q I)

include hI

theorem of_served {since : Instant} {reply : call.Reply} {k : call.Reply → Async Response}
    (hw : I w) (htask : w.tasks q = .calling call since (some reply) k)
    (hk : ∀ {w : World}, I w → w.tasks q = .ready (k reply) → Finishes env w q) :
    Finishes env w q := by
  have hdeliver : w.step env (.deliver q) =
      some ((w.setTask q (.ready (k reply))).record q (.did ⟨.s3 call, reply⟩)) := by
    rw [World.step, htask]
  exact .cons hdeliver rfl (hk (hI.step hw hdeliver rfl) (by simp))

theorem of_calling {since : Instant} {k : call.Reply → Async Response}
    (hw : I w) (htask : w.tasks q = .calling call since none k)
    (hk : ∀ reply {w : World}, I w → w.tasks q = .ready (k reply) → Finishes env w q) :
    Finishes env w q := by
  have hserve : w.step env (.serve q .answer) = some
      { w.setTask q (.calling call since (some (w.bucket.reply env.eTagOf call)) k) with
        bucket := w.bucket.apply env.eTagOf call } := by
    rw [World.step, htask]
    rfl
  have hdrives : (Label.serve q .answer).Drives q := ⟨rfl, rfl⟩
  refine .cons hserve hdrives ?_
  exact hI.of_served (hI.step hw hserve hdrives) (tasks_setTask.trans (if_pos rfl)) (hk _)

/-- A task that is ready comes to its end: the induction is on what is left of
its code. -/
theorem of_ready (p : Async Response) :
    ∀ {w : World}, I w → w.tasks q = .ready p → Finishes env w q := by
  induction p with
  | done response =>
    intro w hw htask
    exact ⟨[.run q], _, response, Run.single rfl (by rw [World.step, htask]), by simp⟩
  | act e k ih =>
    intro w hw htask
    have hact : Immediate e → Finishes env w q := by
      intro he
      obtain ⟨cache, resp, hl⟩ := hI.enabled hw htask he
      obtain ⟨w', hrun, htask'⟩ := run_act htask hl
      exact .cons hrun rfl (ih resp (hI.step hw hrun rfl) htask')
    cases e with
    | s3 call =>
      have hcall : w.step env (.run q) =
          some ((w.setTask q (.calling call w.clock none k)).record q (.called call)) := by
        rw [World.step, htask]
      exact .cons hcall rfl
        (hI.of_calling (hI.step hw hcall rfl) (tasks_setTask.trans (if_pos rfl)) ih)
    | read ready item =>
      -- the client sends the next piece of its body in time
      have htick : w.step env (.tick ready) = some { w with clock := w.clock + ready } := rfl
      have hwait := hI.step hw htick trivial
      obtain ⟨w', hrun, htask'⟩ := run_act (w := { w with clock := w.clock + ready }) htask
        (if_pos (Nat.le_add_left ready w.clock))
      exact .cons htick trivial (.cons hrun rfl (ih () (hI.step hwait hrun rfl) htask'))
    | _ => exact hact trivial

/-- A request that has come is answered, if it is taken along: by induction on what
is left of its program, for every answer there may be. -/
theorem finishes (hw : I w) (harrived : w.tasks q ≠ .absent) (hkept : w.tasks q ≠ .dropped) :
    Finishes env w q := by
  cases htask : w.tasks q with
  | absent => exact absurd htask harrived
  | dropped => exact absurd htask hkept
  | ready p => exact hI.of_ready p hw htask
  | answered response => exact ⟨[], w, response, .nil, htask⟩
  | calling call since reply k =>
    cases reply with
    | none => exact hI.of_calling hw htask fun reply => hI.of_ready (k reply)
    | some reply => exact hI.of_served hw htask (hI.of_ready (k reply))

end Driving

/-- A writer waits for no other request. -/
theorem driving_writer (hrole : env.role q = .writer key) : Driving env q (Tracks env) where
  step ht h _ := ht.step h
  enabled {w e k} ht htask he := by
    have hallows := ht.allows htask
    rw [hrole] at hallows
    cases e with
    | s3 call => exact absurd he not_false
    | read ready item => exact absurd he not_false
    | slot hash t => exact absurd hallows not_false
    | acquire s => exact absurd hallows not_false
    | settle s v => exact absurd hallows not_false
    | _ => exact ⟨_, _, rfl⟩

/-! ## Who has written the object -/

/-- `q` has written the object, and knows it or is about to. -/
def Landed (env : Env) (w : World) (q : ReqId) : Prop :=
  (w.session env q).wrote = true ∨ ∃ key call since reply k,
    w.tasks q = .calling call since (some reply) k ∧ Replaces key call

omit [RustChar] in
theorem learn_wrote {g : Session} {e : Act} {resp : e.Resp} (h : g.wrote = true) :
    (g.learn e resp).wrote = true := by
  unfold Session.learn
  split <;> first | exact h | rfl

omit [RustChar] in
/-- And learns so from a request that replaces the object. -/
theorem learn_wrote_origin {g : Session} {e : Act} {resp : e.Resp}
    (h : (g.learn e resp).wrote = true) :
    g.wrote = true ∨ ∃ key call, e = .s3 call ∧ Replaces key call := by
  unfold Session.learn at h
  split at h
  case h_3 key body => exact Or.inr ⟨key, _, rfl, rfl⟩
  case h_9 key id parts => exact Or.inr ⟨key, _, rfl, rfl⟩
  all_goals exact Or.inl h

/-- Only what was not found is written. -/
theorem absent_of_wrote (ht : Tracks env w) (hrole : env.role q = .writer key)
    (hwrote : (w.session env q).wrote = true) : (w.session env q).Absent := by
  refine ht.session_invariant (I := fun g => g.wrote = true → g.Absent) q ?_ ?_ hwrote
  · intro hno
    cases hno
  · intro g e resp hg ha hwrote
    rw [hrole] at ha
    rcases learn_wrote_origin hwrote with hbefore | ⟨key', call, rfl, hcall⟩
    · exact learn_keeps_absent (hg hbefore) ha
    · refine learn_keeps_absent ?_ ha
      -- both requests that write are allowed after a miss only
      cases call with
      | putObject key' body => exact ha.2.1.1
      | completeMultipartUpload key' id parts => exact ha.2.1.1
      | _ => exact absurd hcall not_false

/-- What is written stays written, as long as S3 fails nobody. -/
theorem Landed.step (hw : Smooth env initial w) (h : w.step env l = some w') (hl : l.ErrorFree)
    (hq : Landed env w q) : Landed env w' q := by
  have hlearnt : (w.session env q).wrote = true → (w'.session env q).wrote = true := by
    intro hwrote
    cases learns_of_step hw.intact.tracks h q with
    | nothing heq => rw [heq]; exact hwrote
    | act e resp _ _ heq => rw [heq]; exact learn_wrote hwrote
    | reply call since reply k _ _ heq => rw [heq]; exact learn_wrote hwrote
  rcases hq with hwrote | ⟨key, call, since, reply, k, htask, hcall⟩
  · exact Or.inl (hlearnt hwrote)
  · cases moves_of_step h q with
    | stays htask' _ => exact Or.inr ⟨key, call, since, reply, k, htask'.trans htask, hcall⟩
    -- the reply is on its way: where nothing fails, it says so
    | @delivers call' since' reply' k' htask₀ _ hhist _ =>
      rw [htask₀] at htask
      cases htask
      have hfine := hw.replies htask₀
      refine Or.inl ?_
      rw [session_snoc hhist]
      cases call with
      | putObject key' body =>
        rw [show reply = Except.ok () from hfine]
        rfl
      | completeMultipartUpload key' id parts =>
        rw [show reply = Except.ok () from hfine]
        rfl
      | _ => exact absurd hcall not_false
    | drops _ _ _ => exact absurd hl not_false
    | arrives htask₀ | calls htask₀ | acts htask₀ | answers htask₀ | serves htask₀ =>
      rw [htask₀] at htask
      cases htask

/-- Whoever finds the object absent goes on to write it; all others have only
looked. -/
def OnlyLooked (env : Env) (w : World) : Prop :=
  ∀ {t q call key}, env.role q = .writer key → ⟨t, q, .called call⟩ ∈ w.trace →
    call = .headObject key ∨ (w.session env q).Absent

/-- A writer asks for more than a look only after it has found the object absent. -/
theorem OnlyLooked.step (hlook : OnlyLooked env w) (ht : Tracks env w)
    (h : w.step env l = some w') : OnlyLooked env w' := by
  intro t q call key hrole hmem
  have habsent : (w.session env q).Absent → (w'.session env q).Absent := by
    intro habsent
    have hkeeps : ∀ {e : Act} {resp : e.Resp},
        (w.session env q).Allows (env.role q) (env.body q) e →
          ((w.session env q).learn e resp).Absent := by
      intro e resp ha
      rw [hrole] at ha
      exact learn_keeps_absent habsent ha
    cases learns_of_step ht h q with
    | nothing heq => rw [heq]; exact habsent
    | act e resp _ ha heq => rw [heq]; exact hkeeps ha
    | reply call since reply k _ ha heq => rw [heq]; exact hkeeps ha
  rcases trace_of_step h with heq | ⟨r, event, heq, hoccurs⟩
  · rw [heq] at hmem
    exact (hlook hrole hmem).imp_right habsent
  · rw [heq] at hmem
    rcases List.mem_cons.mp hmem with hnew | hold
    · injection hnew with _ hr hevent
      subst hr
      rw [← hevent] at hoccurs
      -- a new entry: a writer that has not missed asks for nothing but a `HEAD`
      cases hoccurs with
      | called htask =>
        have ha := ht.allows htask
        rw [hrole] at ha
        cases call with
        | headObject key' => exact Or.inl (congrArg _ ha.1)
        | getObject key' => exact absurd ha not_false
        | putObject key' body => exact Or.inr (habsent ha.2.1.1)
        | createMultipartUpload key' => exact Or.inr (habsent ha.2.1.1)
        | uploadPart key' id n len body => exact Or.inr (habsent ha.2.1.1)
        | completeMultipartUpload key' id parts => exact Or.inr (habsent ha.2.1.1)
        | abortMultipartUpload key' id => exact Or.inr (habsent ha.2.1)
    · exact (hlook hrole hold).imp_right habsent

/-! ## The invariant -/

/-- Writers among readers, when S3 fails nobody and nobody goes away: every object is
the body of one writer, which knows it or is about to. -/
structure Racing (env : Env) (initial : Hash → Option Bytes) (w : World) : Prop where
  smooth : Smooth env initial w
  evident : Evident env w
  looked : OnlyLooked env w
  kept : ∀ r, w.tasks r ≠ .dropped
  authored : ∀ {key bytes}, w.bucket.objects key = some bytes → initial key = some bytes ∨
    ∃ q, env.role q = .writer key ∧ (env.body q).complete = true ∧ bytes = (env.body q).bytes ∧
      Landed env w q

theorem racing_init : Racing env initial (init initial) where
  smooth := smooth_init
  evident := evident_init
  looked _ h := by cases h
  kept _ h := by cases h
  authored h := Or.inl h

namespace Racing

variable (hw : Racing env initial w)

include hw

theorem step_authored (h : w.step env l = some w') (hl : l.ErrorFree) {bytes : Bytes}
    (hobject : w'.bucket.objects key = some bytes) : initial key = some bytes ∨
      ∃ q, env.role q = .writer key ∧ (env.body q).complete = true ∧
        bytes = (env.body q).bytes ∧ Landed env w' q := by
  have hold : w.bucket.objects key = some bytes → initial key = some bytes ∨
      ∃ q, env.role q = .writer key ∧ (env.body q).complete = true ∧
        bytes = (env.body q).bytes ∧ Landed env w' q := by
    intro hobject
    rcases hw.authored hobject with hinitial | ⟨q, hrole, hc, hb, hq⟩
    · exact Or.inl hinitial
    · exact Or.inr ⟨q, hrole, hc, hb, hq.step hw.smooth h hl⟩
  cases step_cases h with
  | @served r fate call since k htask hf =>
    -- the object is the one before, or `r` has just put it
    rcases hw.smooth.intact.received_of_apply (mem_pending_of_calling htask) hobject with
      hbefore | ⟨hcall, hrole, hc, hb, -⟩
    · exact hold hbefore
    · exact Or.inr ⟨r, hrole, hc, hb, Or.inr ⟨key, call, since, _, k, by simp; rfl, hcall⟩⟩
  | stray hp => exact absurd hl not_false
  | delete key' =>
    simp only [Bucket.setObject, Function.update_apply] at hobject
    split at hobject
    next => cases hobject
    next => exact hold hobject
  | _ => exact hold hobject

theorem step (h : w.step env l = some w') (hl : l.ErrorFree ∧ l.Keeps) :
    Racing env initial w' where
  smooth := hw.smooth.step h hl.1
  evident := hw.evident.step h hl.2
  looked := OnlyLooked.step hw.looked hw.smooth.intact.tracks h
  kept r hdropped := by
    cases moves_of_step h r with
    | stays htask' _ => exact hw.kept r (htask'.symm.trans hdropped)
    | drops _ _ _ => exact hl.1
    | arrives _ htask' | calls _ htask' | acts _ _ htask' | answers _ htask' | serves _ htask'
    | delivers _ htask' =>
      rw [htask'] at hdropped
      cases hdropped
  authored := hw.step_authored h hl.1

/-- A whole PUT that is answered has written the object, or has found it. -/
theorem answered (hput : env.Puts q key) (hc : (env.body q).complete = true)
    (hans : w.tasks q = .answered response) :
    response.status = 200 ∧ (w.session env q).Absent ∧ (w.session env q).wrote = true ∨
      response.status = 409 ∧ (w.session env q).probe = some (.ok ()) := by
  obtain ⟨inner, rfl, hends⟩ := hw.smooth.intact.tracks.ends (Or.inl hans)
  rw [Env.puts_iff.mp hput] at hends
  rcases hends with ⟨hprobe, -, rfl⟩ | ⟨habsent, hwrote, -, rfl⟩ | ⟨-, -, hbroken, -⟩ |
    ⟨-, -, hfailed, -⟩
  · exact Or.inr ⟨finalize_status .., hprobe⟩
  · exact Or.inl ⟨finalize_status .., habsent, hwrote⟩
  · rw [hc] at hbroken
    cases hbroken
  · rw [(hw.smooth.sessions q).failed] at hfailed
    cases hfailed

end Racing

/-- The runs of racing writers. -/
def Undisturbed (_ : World) (l : Label) : Prop := l.ErrorFree ∧ l.Keeps

instance (w : World) (l : Label) : Decidable (Undisturbed w l) :=
  inferInstanceAs (Decidable (l.ErrorFree ∧ l.Keeps))

theorem Racing.run {ls : List Label} (hrun : Run (World.step env) Undisturbed w ls w')
    (hw : Racing env initial w) : Racing env initial w' :=
  hrun.invariant (fun _ _ _ hw hl h => hw.step h hl) hw

namespace Racing

variable (hw : Racing env initial w)

include hw

/-- A PUT that was answered leaves an object there, its own or the one it found. -/
theorem bound_of_answered (hput : env.Puts q key) (hc : (env.body q).complete = true)
    (hans : w.tasks q = .answered response) : w.Bound key := by
  have hkey : (env.role q).key = some key := by rw [Env.puts_iff.mp hput]; rfl
  rcases hw.answered hput hc hans with ⟨-, -, hwrote⟩ | ⟨-, hprobe⟩
  · exact hw.evident.sessions hkey (Or.inr hwrote)
  · exact hw.evident.sessions hkey (Or.inl hprobe)

/-- Whoever has written the object is answered 200. -/
theorem status_of_landed (hput : env.Puts q key) (hc : (env.body q).complete = true)
    (hq : Landed env w q) (hans : w.tasks q = .answered response) : response.status = 200 := by
  have hwrote : (w.session env q).wrote = true := by
    rcases hq with hwrote | ⟨_, _, _, _, _, htask, -⟩
    · exact hwrote
    · rw [hans] at htask
      cases htask
  -- a 409 would mean that it had found the object before
  rcases hw.answered hput hc hans with ⟨hstatus, -, -⟩ | ⟨-, hprobe⟩
  · exact hstatus
  · obtain ⟨err, habsent⟩ :=
      absent_of_wrote hw.smooth.intact.tracks (Env.puts_iff.mp hput) hwrote
    rw [hprobe] at habsent
    cases habsent

theorem looked_of_found (hput : env.Puts q key) (hfound : ¬ (w.session env q).Absent)
    {t : Instant} (hcall : ⟨t, q, .called call⟩ ∈ w.trace) : call = .headObject key :=
  (hw.looked (Env.puts_iff.mp hput) hcall).resolve_right hfound

/-- A PUT that starts when the object is there finds it. -/
theorem found_of_late (hlate : Late env w q) : ¬ (w.session env q).Absent := by
  intro h
  obtain ⟨err, hprobe⟩ := h
  cases err with
  | notFound => exact hlate.probe hprobe
  | other err => exact (hw.smooth.sessions q).probe hprobe

/-- Who comes when the object is there finds it. -/
theorem late_run {ls : List Label} (hb : w.Bound key) (hput : env.Puts q key)
    (hlate : Late env w q) (hrun : Run (World.step env) Undisturbed w ls w') :
    Racing env initial w' ∧ Late env w' q := by
  have hkey : (env.role q).key = some key := by rw [Env.puts_iff.mp hput]; rfl
  have hall : Racing env initial w' ∧ w'.Bound key ∧ Late env w' q := by
    refine hrun.invariant (I := fun w => Racing env initial w ∧ w.Bound key ∧ Late env w q)
      ?_ ⟨hw, hb, hlate⟩
    intro w l w' hI hl h
    obtain ⟨hw, hb, hlate⟩ := hI
    exact ⟨hw.step h hl, hb.step h hl.2.ne_delete, hlate.step hw.smooth.intact.tracks hb hkey h⟩
  exact ⟨hall.1, hall.2.2⟩

end Racing

/-- **Racing writers.** -/
theorem racing_writers {objects : Hash → Option Bytes} {ls : List Label}
    (hcomplete : ∀ q, env.Puts q key → (env.body q).complete = true)
    (hrun : Run (World.step env) Undisturbed (init objects) ls w) :
    (∀ q, env.Puts q key → w.tasks q ≠ .absent → Finishes env w q) ∧
    (∀ q response, env.Puts q key → w.tasks q = .answered response →
      response.status = 200 ∨ response.status = 409) ∧
    (objects key = none → (∃ q, env.Puts q key ∧ w.tasks q ≠ .absent) →
      (∀ q, env.Puts q key → w.tasks q ≠ .absent → ∃ response, w.tasks q = .answered response) →
      ∃ q response, env.Puts q key ∧ w.tasks q = .answered response ∧ response.status = 200 ∧
        w.bucket.objects key = some (env.body q).bytes) ∧
    (∀ bytes, w.bucket.objects key = some bytes → objects key = some bytes ∨
      ∃ q, env.Puts q key ∧ bytes = (env.body q).bytes ∧
        ∀ response, w.tasks q = .answered response → response.status = 200) ∧
    (∀ q response, env.Puts q key → w.tasks q = .answered response → response.status = 409 →
      ∀ t call, ⟨t, q, .called call⟩ ∈ w.trace → call = .headObject key) ∧
    ∀ q response ls' w' q', env.Puts q key → w.tasks q = .answered response →
      response.status = 200 → env.Puts q' key → w.tasks q' = .absent →
      Run (World.step env) Undisturbed w ls' w' →
      (∀ response', w'.tasks q' = .answered response' → response'.status = 409) ∧
      ∀ t call, ⟨t, q', .called call⟩ ∈ w'.trace → call = .headObject key := by
  have hw : Racing env objects w := racing_init.run hrun
  have ht := hw.smooth.intact.tracks
  refine ⟨?_, ?_, ?_, ?_, ?_, ?_⟩
  · intro q hput harrived
    exact (driving_writer (Env.puts_iff.mp hput)).finishes ht harrived (hw.kept q)
  · intro q response hput hans
    exact (hw.answered hput (hcomplete q hput) hans).imp And.left And.left
  · intro hnone harrived hall
    obtain ⟨q, hput, harrived⟩ := harrived
    obtain ⟨response, hans⟩ := hall q hput harrived
    -- some PUT is answered, so there is an object, and somebody wrote it
    have hb : w.Bound key := hw.bound_of_answered hput (hcomplete q hput) hans
    obtain ⟨bytes, hobject⟩ := Option.isSome_iff_exists.mp hb
    rcases hw.authored hobject with hinitial | ⟨q', hrole, hc, rfl, hq'⟩
    · rw [hnone] at hinitial
      cases hinitial
    · have hput' := Env.puts_iff.mpr hrole
      have harrived' : w.tasks q' ≠ .absent := by
        intro habsent
        rcases hq' with hwrote | ⟨_, _, _, _, _, htask, -⟩
        · rw [ht.session_absent habsent] at hwrote
          cases hwrote
        · rw [habsent] at htask
          cases htask
      obtain ⟨response', hans'⟩ := hall q' hput' harrived'
      exact ⟨q', response', hput', hans', hw.status_of_landed hput' hc hq' hans', hobject⟩
  · intro bytes hobject
    rcases hw.authored hobject with hinitial | ⟨q, hrole, hc, hb, hq⟩
    · exact Or.inl hinitial
    · have hput := Env.puts_iff.mpr hrole
      exact Or.inr ⟨q, hput, hb, fun response hans => hw.status_of_landed hput hc hq hans⟩
  · intro q response hput hans hstatus t call hcall
    rcases hw.answered hput (hcomplete q hput) hans with ⟨hok, -⟩ | ⟨-, hprobe⟩
    · rw [hstatus] at hok
      cases hok
    · refine hw.looked_of_found hput ?_ hcall
      intro h
      obtain ⟨err, habsent⟩ := h
      rw [hprobe] at habsent
      cases habsent
  · intro q response ls' w' q' hput hans _ hput' habsent hrun'
    -- `q'` starts after an object is there, and so finds it
    have hb : w.Bound key := hw.bound_of_answered hput (hcomplete q hput) hans
    obtain ⟨hw', hlate⟩ := hw.late_run hb hput' (late_of_absent ht habsent) hrun'
    have hfound := hw'.found_of_late hlate
    refine ⟨?_, fun t call hcall => hw'.looked_of_found hput' hfound hcall⟩
    intro response' hans'
    rcases hw'.answered hput' (hcomplete q' hput') hans' with ⟨-, hno, -⟩ | ⟨hstatus, -⟩
    · exact absurd hno hfound
    · exact hstatus

private def twoWriters : Env := exampleEnv [(0, examplePut [1, 2, 3]), (1, examplePut [4])]

/-- Two PUTs on two instances; both look before either writes. -/
def bothWrite : List Label :=
  [.arrive 0, .arrive 1, .run 0, .run 1, .serve 0 .answer, .serve 1 .answer, .deliver 0, .deliver 1,
    .run 0, .run 0, .run 0, .serve 0 .answer, .run 1, .run 1, .run 1, .serve 1 .answer,
    .deliver 0, .deliver 1, .run 0, .run 0, .run 0, .run 1, .run 1, .run 1]

omit [RustChar] in
/-- Both are answered 200 and one body is there, that of the later one. -/
theorem bothWrite_one_body :
    ∃ w, Run (@World.step asciiChars twoWriters) Undisturbed (init fun _ => none) bothWrite w ∧
      ∃ q response, @Env.Puts asciiChars twoWriters q "abc" ∧ w.tasks q = .answered response ∧
        response.status = 200 ∧ w.bucket.objects "abc" = some (twoWriters.body q).bytes := by
  obtain ⟨w, hrun, h₀, h₁⟩ : ∃ w,
      Run (@World.step asciiChars twoWriters) Undisturbed (init fun _ => none) bothWrite w ∧
      (w.tasks 0).response = some ⟨200, some "text/plain; charset=utf-8", some "close", .text ""⟩ ∧
      (w.tasks 1).response =
        some ⟨200, some "text/plain; charset=utf-8", some "close", .text ""⟩ :=
    exists_run_of_exec (fun _ _ h => of_decide_eq_true h)
      (show (exec _ (fun w l => decide (Undisturbed w l)) _ _).any _ = true by decide)
  rw [Task.response_eq_some] at h₀ h₁
  let _ : RustChar := asciiChars
  have hcomplete : ∀ q, (twoWriters.body q).complete = true := by
    intro q
    match q with
    | 0 => rfl
    | 1 => rfl
    | q + 2 => rfl
  have hlaw := (@racing_writers asciiChars twoWriters w "abc" (fun _ => none) bothWrite
    (fun q _ => hcomplete q) hrun).2.2.1
  refine ⟨w, hrun, hlaw rfl ⟨0, Env.puts_example rfl, by simp [h₀]⟩ ?_⟩
  intro q hput _
  match q, hput with
  | 0, _ => exact ⟨_, h₀⟩
  | 1, _ => exact ⟨_, h₁⟩
  | q + 2, hput => exact absurd (show Method.get = .put from hput.method) (by decide)

end World

end NxCacheServer.System
