import NxCacheServer.Server.Access
import NxCacheServer.System.Integrity

/-!
# Read-only noninterference

Whoever has no service token cannot write, nor keep others from it. The GETs of
such a client do change something that others use, the existence cache; but no
PUT ever asks it, and no GET changes the bucket. So what the bucket and the PUTs
do is their own affair (`Alike`), and a run in which all other requests are
taken out goes the same way for them.

Two runs are compared, one with all requests and one with the labels of the others
taken out; `play` skips what is not enabled, so the second is a run again. `Alike`
ignores the caches altogether, and therefore does not care that the answers of S3 to
a GET change them.
-/

namespace NxCacheServer.System

open NxCacheServer.Domain NxCacheServer.Infra NxCacheServer.Server NxCacheServer.Lib

/-- The request a step is about. -/
def Label.req : Label → Option ReqId
  | .tick _ => none
  | .arrive r => some r
  | .run r => some r
  | .serve r _ => some r
  | .deliver r => some r
  | .cancel r => some r
  | .stray r _ => some r
  | .delete _ => none

/-- `r` carries the service access token of its instance, byte for byte. -/
def Env.Trusted (env : Env) (r : ReqId) : Prop :=
  (env.request r).bearerToken = some (tokenBytes (env.config (env.inst r)).serviceAccessToken)

instance (env : Env) : DecidablePred env.Trusted := fun _ => inferInstanceAs (Decidable (_ = _))

/-- `r` is a PUT with the service access token. -/
def Env.Storing (env : Env) (r : ReqId) : Prop := (env.request r).method = .put ∧ env.Trusted r

/-- Steps of requests without the service token are taken out. -/
def Env.keeps (env : Env) (l : Label) : Bool := l.req.all fun r => env.Trusted r

/-- The request only looks. -/
def Looks : S3Call → Prop
  | .headObject _ => True
  | .getObject _ => True
  | _ => False

theorem Looks.apply {bucket : Bucket} {eTagOf : Bytes → ETag} {call : S3Call} (h : Looks call) :
    bucket.apply eTagOf call = bucket := by
  cases call with
  | headObject key => rfl
  | getObject key => rfl
  | _ => exact absurd h not_false

namespace World

variable {env : Env} {w w' u : World} {l : Label} {r : ReqId} {i i' : InstId}
  {task : Task} {cache cache' : ProbeCache} {call : S3Call} {event event' : Event}

/-! ## What concerns the writers -/

/-- The bucket, the clock and everything about the PUTs are the same. -/
structure Alike (env : Env) (w w' : World) : Prop where
  clock : w'.clock = w.clock
  bucket : w'.bucket = w.bucket
  tasks : ∀ {r}, env.Storing r → w'.tasks r = w.tasks r
  strays : ∀ {r}, env.Storing r → w'.strays r = w.strays r

namespace Alike

theorem refl (w : World) : Alike env w w := ⟨rfl, rfl, fun _ => rfl, fun _ => rfl⟩

theorem symm (h : Alike env w w') : Alike env w' w :=
  ⟨h.clock.symm, h.bucket.symm, fun hr => (h.tasks hr).symm, fun hr => (h.strays hr).symm⟩

theorem trans (h : Alike env w w') (h' : Alike env w' u) : Alike env w u where
  clock := h'.clock.trans h.clock
  bucket := h'.bucket.trans h.bucket
  tasks hr := (h'.tasks hr).trans (h.tasks hr)
  strays hr := (h'.strays hr).trans (h.strays hr)

variable (h : Alike env w w')

include h

theorem setTask : Alike env (w.setTask r task) (w'.setTask r task) where
  clock := h.clock
  bucket := h.bucket
  tasks {q} hq := by
    rw [tasks_setTask, tasks_setTask]
    split
    next => rfl
    next => exact h.tasks hq
  strays := h.strays

theorem setCache : Alike env (w.setCache i cache) (w'.setCache i' cache') :=
  ⟨h.clock, h.bucket, h.tasks, h.strays⟩

theorem record : Alike env (w.record r event) (w'.record r event') :=
  ⟨h.clock, h.bucket, h.tasks, h.strays⟩

theorem addStray (hr : env.Storing r) : Alike env (w.addStray r call) (w'.addStray r call) where
  clock := h.clock
  bucket := h.bucket
  tasks := h.tasks
  strays {q} hq := by
    rw [strays_addStray, strays_addStray, h.strays hr]
    split
    next => rfl
    next => exact h.strays hq

theorem pending (hr : env.Storing r) : w'.pending r = w.pending r := by
  unfold World.pending
  rw [h.tasks hr, h.strays hr]

end Alike

variable [RustChar]

theorem storing_of_writer {hash : Hash} (hrole : env.role r = .writer hash) : env.Storing r := by
  obtain ⟨hmethod, -, -, htoken⟩ := role_writer hrole
  exact ⟨hmethod, htoken⟩

/-! ## What other requests do -/

/-- Whatever a request that is no PUT has asked of S3 and may still take effect
has none. -/
structure Readable (env : Env) (w : World) : Prop where
  tracks : Tracks env w
  looks : ∀ {r call}, ¬ env.Storing r → call ∈ w.pending r → Looks call

theorem readable_init {objects : Hash → Option Bytes} : Readable env (init objects) where
  tracks := tracks_init
  looks _ h := by cases h

theorem Readable.step (hw : Readable env w) (h : w.step env l = some w') : Readable env w' where
  tracks := hw.tracks.step h
  looks {r call} hr hcall := by
    rcases pending_of_step hw.tracks h hcall with hbefore | ⟨hallows, -⟩
    · exact hw.looks hr hbefore
    · rcases writer_of_allows hallows with ⟨hash, hrole⟩ | ⟨key, rfl⟩ | ⟨key, rfl⟩
      · exact absurd (storing_of_writer hrole) hr
      · trivial
      · trivial

/-- A step of a request that is no PUT makes no difference to the PUTs. -/
theorem Readable.alike (hw : Readable env w) (h : w.step env l = some w') (hl : l.req = some r)
    (hr : ¬ env.Storing r) : Alike env w w' := by
  have hne : ∀ {q}, env.Storing q → q ≠ r := by
    intro q hq heq
    exact hr (heq ▸ hq)
  cases step_cases h with
  | tick d => cases hl
  | delete key => cases hl
  | arrive htask =>
    cases hl
    exact ⟨rfl, rfl, fun hq => by simp [hne hq], fun _ => rfl⟩
  | answer htask =>
    cases hl
    exact ⟨rfl, rfl, fun hq => by simp [hne hq], fun _ => rfl⟩
  | call htask =>
    cases hl
    exact ⟨rfl, rfl, fun hq => by simp [hne hq], fun _ => rfl⟩
  | act htask hlocal =>
    cases hl
    exact ⟨rfl, rfl, fun hq => by simp [hne hq], fun _ => rfl⟩
  | wait htask hlocal => exact ⟨rfl, rfl, fun _ => rfl, fun _ => rfl⟩
  -- what a GET asks for leaves the bucket as it is
  | served htask hf =>
    cases hl
    exact ⟨rfl, (hw.looks hr (mem_pending_of_calling htask)).apply, fun hq => by simp [hne hq],
      fun _ => rfl⟩
  | failed htask hf =>
    cases hl
    exact ⟨rfl, rfl, fun hq => by simp [hne hq], fun hq => by simp [hne hq]⟩
  | deliver htask =>
    cases hl
    exact ⟨rfl, rfl, fun hq => by simp [hne hq], fun _ => rfl⟩
  | cancelReady htask =>
    cases hl
    exact ⟨rfl, rfl, fun hq => by simp [hne hq], fun _ => rfl⟩
  | cancelCalling htask =>
    cases hl
    exact ⟨rfl, rfl, fun hq => by simp [hne hq], fun hq => by simp [hne hq]⟩
  | cancelServed htask =>
    cases hl
    exact ⟨rfl, rfl, fun hq => by simp [hne hq], fun _ => rfl⟩
  | stray hp =>
    cases hl
    exact ⟨rfl, (hw.looks hr hp).apply, fun _ => rfl, fun _ => rfl⟩

/-! ## What PUTs do -/

/-- The actions of a PUT do not depend on the cache. -/
def Blind : Act → Prop
  | .slot _ _ => False
  | .acquire _ => False
  | .settle _ _ => False
  | _ => True

/-- A PUT does nothing that depends on the cache. -/
theorem blind_of_storing (ht : Tracks env w) (hr : env.Storing r) {e : Act}
    {k : e.Resp → Async Response} (htask : w.tasks r = .ready (.act e k)) : Blind e := by
  have hallows := ht.allows htask
  cases hrole : env.role r with
  | reader hash =>
    have hread := (role_reader hrole).1
    rw [hr.1] at hread
    cases hread
  | writer hash =>
    rw [hrole] at hallows
    cases e with
    | slot hash now => exact absurd hallows not_false
    | acquire s => exact absurd hallows not_false
    | settle s value => exact absurd hallows not_false
    | _ => trivial
  | refused response =>
    rw [hrole] at hallows
    cases e with
    | slot hash now => exact absurd hallows not_false
    | acquire s => exact absurd hallows not_false
    | settle s value => exact absurd hallows not_false
    | _ => trivial

/-- A PUT runs alike. -/
theorem Alike.run (h : Alike env w w') (ht : Tracks env w) (hr : env.Storing r) :
    Option.Rel (Alike env) (w.step env (.run r)) (w'.step env (.run r)) := by
  have htask' := h.tasks hr
  rw [World.step, World.step, htask', h.clock]
  cases htask : w.tasks r with
  | ready p =>
    cases p with
    | done response => exact .some h.setTask.record
    | act e k =>
      -- all but the cache are the same on both sides, and the cache is not asked
      have hblind := blind_of_storing ht hr htask
      cases e with
      | slot hash now => exact absurd hblind not_false
      | acquire s => exact absurd hblind not_false
      | settle s value => exact absurd hblind not_false
      | s3 call => exact .some h.setTask.record
      | read ready item =>
        by_cases hready : ready ≤ w.clock
        · simp only [localStep, if_pos hready]
          exact .some h.setCache.setTask.record
        · simp only [localStep, if_neg hready]
          exact .none
      | _ => exact .some h.setCache.setTask.record
  | _ => exact .none

/-- So does everything that is about a PUT, or about no request. -/
theorem Alike.step (h : Alike env w w') (ht : Tracks env w)
    (hl : ∀ r, l.req = some r → env.Storing r) :
    Option.Rel (Alike env) (w.step env l) (w'.step env l) := by
  cases l with
  | tick d =>
    refine .some ⟨?_, h.bucket, h.tasks, h.strays⟩
    show w'.clock + d = w.clock + d
    rw [h.clock]
  | delete key =>
    refine .some ⟨h.clock, ?_, h.tasks, h.strays⟩
    show w'.bucket.setObject key none = w.bucket.setObject key none
    rw [h.bucket]
  | run r => exact h.run ht (hl r rfl)
  | arrive r =>
    rw [World.step, World.step, h.tasks (hl r rfl)]
    cases w.tasks r with
    | absent => exact .some h.setTask.record
    | _ => exact .none
  | serve r fate =>
    rw [World.step, World.step, h.tasks (hl r rfl), h.bucket]
    cases w.tasks r with
    | calling call since reply k =>
      cases reply with
      | some reply => exact .none
      | none =>
        dsimp only
        split
        · let task : Task := .calling call since
            (some (fate.reply call (w.bucket.reply env.eTagOf call))) k
          have hset : Alike env (w.setTask r task) (w'.setTask r task) := h.setTask
          exact .some ⟨hset.clock, rfl, hset.tasks, hset.strays⟩
        · exact .some (h.setTask.addStray (hl r rfl))
    | _ => exact .none
  | deliver r =>
    rw [World.step, World.step, h.tasks (hl r rfl)]
    cases w.tasks r with
    | calling call since reply k =>
      cases reply with
      | some reply => exact .some h.setTask.record
      | none => exact .none
    | _ => exact .none
  | cancel r =>
    rw [World.step, World.step, h.tasks (hl r rfl)]
    cases w.tasks r with
    | ready p => exact .some h.setTask.setCache
    | calling call since reply k =>
      cases reply with
      | some reply => exact .some h.setTask.setCache
      | none => exact .some (h.setTask.setCache.addStray (hl r rfl))
    | _ => exact .none
  | stray r call =>
    rw [World.step, World.step, h.pending (hl r rfl)]
    split
    · refine .some ⟨h.clock, ?_, h.tasks, h.strays⟩
      show w'.bucket.apply env.eTagOf call = w.bucket.apply env.eTagOf call
      rw [h.bucket]
    · exact .none

/-! ## Two runs -/

/-- Two systems that do the same for the PUTs, each in good order. -/
structure Beside (env : Env) (w w' : World) : Prop where
  alike : Alike env w w'
  left : Readable env w
  right : Readable env w'

/-- A step that is not about a PUT may be taken on one side only. -/
theorem Beside.silent (h : Beside env w w') (hl : l.req = some r) (hr : ¬ env.Storing r) :
    Beside env ((w.step env l).getD w) w' := by
  cases hstep : w.step env l with
  | none => exact h
  | some u => exact ⟨(h.left.alike hstep hl hr).symm.trans h.alike, h.left.step hstep, h.right⟩

/-- It does not matter which of the two is looked at first. -/
theorem Beside.symm (h : Beside env w w') : Beside env w' w :=
  ⟨h.alike.symm, h.right, h.left⟩

/-- Every other step is taken on both, or on none. -/
theorem Beside.step (h : Beside env w w') :
    Beside env ((w.step env l).getD w) ((w'.step env l).getD w') := by
  by_cases hl : ∀ r, l.req = some r → env.Storing r
  · have hrel := h.alike.step h.left.tracks hl
    generalize hu : w.step env l = x, hu' : w'.step env l = x' at hrel
    cases hrel with
    | none => exact h
    | some halike => exact ⟨halike, h.left.step hu, h.right.step hu'⟩
  -- about no PUT: first one side moves, then the other
  · obtain ⟨r, hreq, hr⟩ : ∃ r, l.req = some r ∧ ¬ env.Storing r := by
      simpa using hl
    exact ((h.silent hreq hr).symm.silent hreq hr).symm

/-- **Read-only noninterference.** Take all requests without the service token out
of a run, among them those with the read-only token: the bucket, the uploads and
every PUT with the service token are where they were. What is left of the run
skips the moves of a GET that its cache does not lead it to any more. -/
theorem readOnly_noninterference {objects : Hash → Option Bytes} {ls : List Label}
    (hvalid : ∀ i, (env.config i).validate = .ok ())
    (hrun : Run (World.step env) (fun _ _ => True) (init objects) ls w) :
    (∀ r token, (env.config (env.inst r)).readOnlyAccessToken = some token →
      (env.request r).bearerToken = some (tokenBytes token) → ¬ env.Trusted r) ∧
    (play (World.step env) (init objects) (ls.filter env.keeps)).bucket = w.bucket ∧
    ∀ p, (env.request p).method = .put → env.Trusted p →
      (play (World.step env) (init objects) (ls.filter env.keeps)).tasks p = w.tasks p := by
  have hbeside : Beside env (play (World.step env) (init objects) ls)
      (play (World.step env) (init objects) (ls.filter env.keeps)) := by
    refine play_filter ?_ ?_ ls ⟨.refl _, readable_init, readable_init⟩
    · intro w w' l h _
      exact h.step
    -- a label that is taken out is about a request without the service token
    · intro w w' l h hgone
      obtain ⟨r, hreq, hr⟩ : ∃ r, l.req = some r ∧ ¬ env.Trusted r := by
        unfold Env.keeps at hgone
        cases hreq : l.req with
        | none =>
          rw [hreq] at hgone
          cases hgone
        | some r =>
          rw [hreq] at hgone
          exact ⟨r, rfl, of_decide_eq_false hgone⟩
      exact h.silent hreq fun hstoring => hr hstoring.2
  rw [hrun.play_eq] at hbeside
  refine ⟨?_, hbeside.alike.bucket, fun p hput htoken => hbeside.alike.tasks ⟨hput, htoken⟩⟩
  intro r token hreadOnly hbearer htrusted
  have hsame : tokenBytes token =
      tokenBytes (env.config (env.inst r)).serviceAccessToken :=
    Option.some.inj (hbearer.symm.trans htrusted)
  exact validate_ok (hvalid _) hreadOnly (tokenBytes_injective hsame)

/-- A PUT, and a GET with the read-only token, on one instance. -/
private def putBesideGet : Env := exampleEnv [(0, examplePut [1, 2, 3]), (0, exampleGet)]

/-- The GET probes while the PUT stores the object. -/
def interleaved : List Label :=
  [.arrive 1, .arrive 0, .run 1, .run 0, .run 1, .serve 0 .answer, .run 1, .run 1,
    .serve 1 .answer, .deliver 0, .run 0, .run 0, .run 0, .serve 0 .answer, .deliver 1,
    .deliver 0, .run 1, .run 0, .run 0, .run 0, .run 1]

omit [RustChar] in
theorem interleaved_noninterference :
    ∃ w, Run (@World.step asciiChars putBesideGet) (fun _ _ => True) (init fun _ => none)
        interleaved w ∧
      (play (@World.step asciiChars putBesideGet) (init fun _ => none)
        (interleaved.filter putBesideGet.keeps)).bucket = w.bucket ∧
      (play (@World.step asciiChars putBesideGet) (init fun _ => none)
        (interleaved.filter putBesideGet.keeps)).tasks 0 = w.tasks 0 := by
  let _ : RustChar := asciiChars
  obtain ⟨w, hrun, -⟩ : ∃ w, Run (World.step putBesideGet) (fun _ _ => True)
      (init fun _ => none) interleaved w ∧
      (w.tasks 0).response.map Response.status = some 200 :=
    exists_run_of_exec (fun _ _ _ => trivial)
      (show (exec _ (fun _ _ => true) _ _).any _ = true by decide)
  have hvalid : ∀ i, (putBesideGet.config i).validate = .ok () := fun _ => rfl
  obtain ⟨-, hbucket, htasks⟩ := readOnly_noninterference hvalid hrun
  exact ⟨w, hrun, hbucket, htasks 0 rfl (by decide)⟩

end World

end NxCacheServer.System
