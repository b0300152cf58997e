import NxCacheServer.Lib.Past
import NxCacheServer.Server.Answers
import NxCacheServer.System.ReadYourWrites

/-!
# The moment a request takes effect

A request to the cache makes several requests to S3, and others come in between.
Still, for one that is answered 200 or 409 there is a single step, at which S3
served it, that does all its answer says: a GET read the object it returns, a PUT
replaced the object by its whole body, a conflicting PUT saw an object. The step
lies between the arrival of the request and its answer, so requests that do not
overlap can be ordered by these steps as they were made. A PUT may do more than
that: an attempt that was given up can still arrive, and replaces the object
again by the same body.

S3 may fail, clients may go away, and objects may be deleted as they like. Where
keys are content addresses, what has been acknowledged stays as it is as long as
it is not deleted itself (`immutable`), whatever other writers of the key do.

A moment is a label of the run together with the state before it, and `Took` keeps it
while the run goes on. It is found where the reply arises and not where it arrives:
S3 serves the call (`Label.serve`), the reply waits, and the answer of the request
comes later still.
-/

namespace NxCacheServer.System

open NxCacheServer.Domain NxCacheServer.Infra NxCacheServer.Server NxCacheServer.Lib

variable [RustChar]

/-- What a request that is answered `response` does to the objects. -/
inductive Performs (env : Env) (r : ReqId) (response : Response) (map map' : Hash → Option Bytes) :
    Prop
  /-- It reads the object that it returns. A `HEAD` returns no body. -/
  | fetch {key : Hash} {body : ObjectBody} (hget : env.Gets r key)
      (hstatus : response.status = 200) (hbound : map key = some body.bytes) (hsame : map' = map)
      (hbody : response.body =
        if (env.request r).method = .head then .empty else .object body)
  /-- It replaces the object by its whole body. -/
  | write {key : Hash} (hput : env.Puts r key) (hstatus : response.status = 200)
      (hwhole : (env.body r).complete = true)
      (hset : map' = Function.update map key (some (env.body r).bytes))
  /-- It sees an object, and leaves it alone. -/
  | conflict {key : Hash} {bytes : Bytes} (hput : env.Puts r key) (hstatus : response.status = 409)
      (hbound : map key = some bytes) (hsame : map' = map)

namespace World

variable {env : Env} {ok : World → Label → Prop} {initial : Hash → Option Bytes}
  {w w' u v : World} {l : Label} {ls : List Label} {r : ReqId} {key : Hash} {call : S3Call}
  {response : Response}

/-- By this step S3 serves the request `call` of `r`, which is told `reply`. -/
def Serves (env : Env) (r : ReqId) (call : S3Call) (reply : call.Reply) (u : World) (l : Label)
    (v : World) : Prop :=
  ∃ fate since k, l = .serve r fate ∧ u.tasks r = .calling call since none k ∧
    reply = fate.reply call (u.bucket.reply env.eTagOf call) ∧
    v.bucket = if fate.served then u.bucket.apply env.eTagOf call else u.bucket

/-! ## One reply of S3 -/

section

omit [RustChar] in
/-- A fetch that is served shows the object as it is. -/
theorem Serves.fetched {body : ObjectBody}
    (h : Serves env r (.getObject key) (Except.ok body) u l v) :
    u.bucket.objects key = some body.bytes ∧ v.bucket.objects = u.bucket.objects := by
  obtain ⟨fate, since, k, -, -, hreply, hbucket⟩ := h
  refine ⟨getReply hreply, ?_⟩
  rw [hbucket]
  split <;> rfl

omit [RustChar] in
/-- A look that is served shows that it is there. -/
theorem Serves.found (h : Serves env r (.headObject key) (Except.ok ()) u l v) :
    (u.bucket.objects key).isSome = true ∧ v.bucket.objects = u.bucket.objects := by
  obtain ⟨fate, since, k, -, -, hreply, hbucket⟩ := h
  have hsame : v.bucket.objects = u.bucket.objects := by
    rw [hbucket]
    split <;> rfl
  have htold : SaysPresent key (.headObject key)
      (fate.reply (.headObject key) (u.bucket.reply env.eTagOf (.headObject key))) :=
    ⟨rfl, hreply.symm⟩
  have hbound := htold.bound
  rw [← hbucket, hsame] at hbound
  exact ⟨hbound, hsame⟩

/-- A reply that reports a write comes from the step that made it, and what it
wrote is the whole body of its request. -/
theorem Serves.wrote {reply : call.Reply} (hu : Intact env initial u)
    (h : Serves env r call reply u l v) (hcall : Replaces key call)
    (htold : SaysPresent key call reply) : env.role r = .writer key ∧
      (env.body r).complete = true ∧
      v.bucket.objects = Function.update u.bucket.objects key (some (env.body r).bytes) := by
  obtain ⟨fate, since, k, -, htask, rfl, hbucket⟩ := h
  -- the object is there now, though it may have been there before with other bytes
  obtain ⟨bytes, hbytes⟩ := Option.isSome_iff_exists.mp htold.bound
  have hpending := hu.harmless (mem_pending_of_calling htask)
  cases call with
  | putObject key' body =>
    obtain rfl : key' = key := hcall
    obtain ⟨hrole, hc, rfl, -⟩ := hpending
    cases fate with
    | fail err => exact absurd htold.2 (by simp [Fate.reply])
    | _ => exact ⟨hrole, hc, by rw [hbucket]; rfl⟩
  | completeMultipartUpload key' id parts =>
    obtain rfl : key' = key := hcall
    cases hassemble : u.bucket.assemble key' id parts with
    | none =>
      rw [Bucket.reply_refused hassemble] at htold
      cases fate <;> exact absurd htold.2 (by simp [Fate.reply])
    | some bytes =>
      obtain ⟨hrole, hc, rfl, -⟩ := hu.received_of_assemble hpending hassemble
      cases fate with
      | fail err => exact absurd htold.2 (by simp [Fate.reply])
      | _ =>
        refine ⟨hrole, hc, ?_⟩
        rw [hbucket]
        simp [Fate.served, Bucket.apply, hassemble, Bucket.setUpload, Bucket.setObject]
  | _ => exact absurd hcall not_false

end

/-! ## Replies and the steps they come from -/

/-- Whatever S3 has told `r` or is about to tell it, it said by a step of the run. -/
structure Sourced (env : Env) (ok : World → Label → Prop) (r : ReqId) (s : World) (ls : List Label)
    (w : World) : Prop where
  waiting : ∀ {call since reply k}, w.tasks r = .calling call since (some reply) k →
    Took (World.step env) ok s ls w (Serves env r call reply)
  heard : ∀ {call reply}, (⟨.s3 call, reply⟩ : TaskEvent) ∈ w.hist r →
    Took (World.step env) ok s ls w (Serves env r call reply)

/-- A request that has not come has heard nothing. -/
theorem sourced_of_absent (ht : Tracks env w) (htask : w.tasks r = .absent) :
    Sourced env ok r w [] w where
  waiting h := by
    rw [htask] at h
    cases h
  heard hmem := by
    rw [(ht r).1 htask] at hmem
    cases hmem

/-- What a request hears was served in a step since it came. -/
theorem Sourced.step {s : World} (hw : Sourced env ok r s ls w)
    (hrun : Run (World.step env) ok s ls w) (hok : ok w l) (h : w.step env l = some w') :
    Sourced env ok r s (ls ++ [l]) w' where
  waiting {call since reply k} htask := by
    rcases reply_of_step h htask with hold | ⟨fate, hl, hcalling, hreply, hbucket⟩
    · exact (hw.waiting hold).snoc hok h
    · exact .last hrun hok h ⟨fate, since, k, hl, hcalling, hreply, hbucket⟩
  heard {call reply} hmem := by
    cases moves_of_step h r with
    | @acts e resp k cache _ hlocal _ hhist _ _ =>
      rw [hhist] at hmem
      rcases List.mem_append.mp hmem with hbefore | hnew
      · exact (hw.heard hbefore).snoc hok h
      · have hev := List.mem_singleton.mp hnew
        cases hev
        exact absurd rfl (localStep_local hlocal call)
    | @delivers call' since' reply' k' htask _ hhist _ =>
      rw [hhist] at hmem
      rcases List.mem_append.mp hmem with hbefore | hnew
      · exact (hw.heard hbefore).snoc hok h
      -- what it hears now was on its way
      · have hev := List.mem_singleton.mp hnew
        cases hev
        exact (hw.waiting htask).snoc hok h
    | stays _ hhist | arrives _ _ hhist | calls _ _ hhist | answers _ _ hhist | serves _ _ hhist
    | drops _ hhist =>
      rw [hhist] at hmem
      exact (hw.heard hmem).snoc hok h

theorem sourced_of_run {s : World} (ht : Tracks env s) (hstart : s.tasks r = .absent)
    (hrun : Run (World.step env) ok s ls w) : Sourced env ok r s ls w :=
  hrun.invariant_run (fun _ _ _ _ hrun hw hok h => hw.step hrun hok h)
    (sourced_of_absent ht hstart)

/-! ## What a request that is answered has heard -/

omit [RustChar] in
/-- A session learns that it has written from a reply that says so. -/
theorem learn_wrote_told {g : Session} {e : Act} {resp : e.Resp}
    (h : (g.learn e resp).wrote = true) : g.wrote = true ∨
      ∃ call reply, (⟨e, resp⟩ : TaskEvent) = ⟨.s3 call, reply⟩ ∧ Replaces call.key call ∧
        SaysPresent call.key call reply := by
  unfold Session.learn at h
  split at h
  case h_3 key body => exact Or.inr ⟨.putObject key body, Except.ok (), rfl, rfl, rfl, rfl⟩
  case h_9 key id parts =>
    exact Or.inr ⟨.completeMultipartUpload key id parts, Except.ok (), rfl, rfl, rfl, rfl⟩
  all_goals exact Or.inl h

theorem heard_of_wrote (ht : Tracks env w) (hkey : (env.role r).key = some key)
    (hwrote : (w.session env r).wrote = true) :
    ∃ call reply, (⟨.s3 call, reply⟩ : TaskEvent) ∈ w.hist r ∧ Replaces key call ∧
      SaysPresent key call reply := by
  rcases Prog.Contract.after_origin (P := fun g : Session => g.wrote = true)
    (fun g ev hlearn => learn_wrote_told hlearn) hwrote with
    hstart | ⟨⟨e, resp⟩, hmem, call, reply, hev, hcall, htold⟩
  · cases hstart
  · rw [hev] at hmem
    -- a request asks about its own key only
    obtain ⟨g, ha⟩ := ht.allowed hmem
    have heq : call.key = key := Option.some.inj ((key_of_allows ha).symm.trans hkey)
    rw [heq] at hcall htold
    exact ⟨call, reply, hmem, hcall, htold⟩

/-! ## The moment -/

/-- This step, at which S3 serves `r`, does all that `r` is answered to have done. -/
def Moment (env : Env) (r : ReqId) (response : Response) (u : World) (l : Label) (v : World) :
    Prop :=
  (∃ fate, l = .serve r fate) ∧ Performs env r response u.bucket.objects v.bucket.objects

section

variable {s : World} (hs : Intact env initial s) (hstart : s.tasks r = .absent)
  (hrun : Run (World.step env) ok s ls w) (ht : Tracks env w)

include hs hstart hrun ht

theorem moment_of_fetch (hget : env.Gets r key) {body : ObjectBody}
    (hgot : (w.session env r).got = some (.ok body)) (hstatus : response.status = 200)
    (hbody : response.body = if (env.request r).method = .head then .empty else .object body) :
    Took (World.step env) ok s ls w (Moment env r response) := by
  obtain ⟨t, hmem⟩ := did_of_got ht (by rw [Env.gets_iff.mp hget]; rfl) hgot
  refine ((sourced_of_run hs.tracks hstart hrun).heard (mem_hist.mpr ⟨t, hmem⟩)).mono ?_
  intro u l v hserves
  obtain ⟨hbound, hsame⟩ := hserves.fetched
  obtain ⟨fate, -, -, hl, -⟩ := hserves
  exact ⟨⟨fate, hl⟩, .fetch hget hstatus hbound hsame hbody⟩

/-- The moment of a PUT that was answered 200 is that of the request that replaced
the object. -/
theorem moment_of_write (hput : env.Puts r key) (hwrote : (w.session env r).wrote = true)
    (hstatus : response.status = 200) :
    Took (World.step env) ok s ls w (Moment env r response) := by
  obtain ⟨call, reply, hmem, hcall, htold⟩ :=
    heard_of_wrote ht (by rw [Env.puts_iff.mp hput]; rfl) hwrote
  have hserved := ((sourced_of_run hs.tracks hstart hrun).heard hmem).and (I := Intact env initial)
    hs fun _ _ _ hu _ h => hu.step h
  refine hserved.mono ?_
  rintro u l v ⟨hu, hserves⟩
  obtain ⟨-, hwhole, hset⟩ := hserves.wrote hu hcall htold
  obtain ⟨fate, -, -, hl, -⟩ := hserves
  exact ⟨⟨fate, hl⟩, .write hput hstatus hwhole hset⟩

/-- The moment of a PUT that was answered 409 is that of its look. -/
theorem moment_of_conflict (hput : env.Puts r key)
    (hprobe : (w.session env r).probe = some (.ok ())) (hstatus : response.status = 409) :
    Took (World.step env) ok s ls w (Moment env r response) := by
  obtain ⟨t, hmem⟩ := did_of_probe ht (by rw [Env.puts_iff.mp hput]; rfl) hprobe
  refine ((sourced_of_run hs.tracks hstart hrun).heard (mem_hist.mpr ⟨t, hmem⟩)).mono ?_
  intro u l v hserves
  obtain ⟨hbound, hsame⟩ := hserves.found
  obtain ⟨bytes, hbytes⟩ := Option.isSome_iff_exists.mp hbound
  obtain ⟨fate, -, -, hl, -⟩ := hserves
  exact ⟨⟨fate, hl⟩, .conflict hput hstatus hbytes hsame⟩

end

/-- **Linearization.** For a request that is answered 200 or 409 there is a single
step that does all its answer says, and it comes after everything that has
happened before the request arrives. -/
theorem moment_of_answer {w₀ : World} {ls₀ : List Label}
    (hrun₀ : Run (World.step env) ok (init initial) ls₀ w₀) (hstart : w₀.tasks r = .absent)
    (hrun : Run (World.step env) ok w₀ ls w) (hans : w.tasks r = .answered response)
    (hstatus : response.status = 200 ∨ response.status = 409) :
    Took (World.step env) ok w₀ ls w (Moment env r response) := by
  have hs : Intact env initial w₀ := hrun₀.invariant (fun _ _ _ hw _ h => hw.step h) intact_init
  have ht : Tracks env w := hrun.invariant (fun _ _ _ hw _ h => hw.step h) hs.tracks
  obtain ⟨inner, hinner, hends⟩ := ht.ends (Or.inl hans)
  have hstatus' : inner.status = 200 ∨ inner.status = 409 := by
    rw [hinner, finalize_status] at hstatus
    exact hstatus
  cases hrole : env.role r with
  | refused answer =>
    rw [hrole] at hends
    obtain ⟨h200, h409⟩ := Server.refused_status (show Server.role _ _ = _ from hrole)
    rw [show inner = answer from hends] at hstatus'
    rcases hstatus' with h | h
    · exact absurd h h200
    · exact absurd h h409
  | reader key =>
    have hget := Env.gets_iff.mpr hrole
    rw [hrole] at hends
    obtain ⟨-, ⟨body, hgot, rfl⟩ | ⟨rfl, -⟩⟩ := hends
    · refine moment_of_fetch hs hstart hrun ht hget hgot (by rw [hinner, finalize_status]) ?_
      rw [hinner, finalize]
      split <;> rfl
    · rcases hstatus' with h | h <;> cases h
  | writer key =>
    have hput := Env.puts_iff.mpr hrole
    rw [hrole] at hends
    rcases hends with ⟨hprobe, -, rfl⟩ | ⟨-, hwrote, -, rfl⟩ | ⟨-, -, -, rfl⟩ | ⟨-, -, -, rfl⟩
    · exact moment_of_conflict hs hstart hrun ht hput hprobe (by rw [hinner, finalize_status]; rfl)
    · exact moment_of_write hs hstart hrun ht hput hwrote (by rw [hinner, finalize_status]; rfl)
    · rcases hstatus' with h | h <;> cases h
    · rcases hstatus' with h | h <;> cases h

private def onePut : Env := exampleEnv [(0, examplePut [1, 2, 3])]

omit [RustChar] in
theorem putOnly_moment :
    ∃ w response, Run (@World.step asciiChars onePut) (fun _ _ => True) (init fun _ => none)
        putOnly w ∧ w.tasks 0 = .answered response ∧
      Took (@World.step asciiChars onePut) (fun _ _ => True) (init fun _ => none) putOnly w
        (@Moment asciiChars onePut 0 response) := by
  let _ : RustChar := asciiChars
  obtain ⟨w, hrun, hans⟩ : ∃ w,
      Run (World.step onePut) (fun _ _ => True) (init fun _ => none) putOnly w ∧
      (w.tasks 0).response =
        some ⟨200, some "text/plain; charset=utf-8", some "close", .text ""⟩ :=
    exists_run_of_exec (fun _ _ _ => trivial)
      (show (exec _ (fun _ _ => true) _ _).any _ = true by decide)
  rw [Task.response_eq_some] at hans
  exact ⟨w, _, hrun, hans, moment_of_answer .nil rfl hrun hans (Or.inl rfl)⟩

/-! ## Content addresses -/

/-- `key` is the content address of `bytes`: no other whole body is sent to it. -/
def Addresses (env : Env) (key : Hash) (bytes : Bytes) : Prop :=
  ∀ q, env.Puts q key → (env.body q).complete = true → (env.body q).bytes = bytes

/-- After its moment, the object a request was about is there. -/
theorem Moment.bound (h : Moment env r response u l v) (hkey : (env.role r).key = some key) :
    v.Bound key := by
  obtain ⟨-, hperforms⟩ := h
  have hsame : ∀ {key'}, (env.role r).key = some key' → key' = key :=
    fun hkey' => Option.some.inj (hkey'.symm.trans hkey)
  unfold Bound
  cases hperforms with
  | fetch hget _ hbound hmap _ =>
    rw [← hsame (by rw [Env.gets_iff.mp hget]; rfl), hmap, hbound]
    rfl
  | write hput _ _ hset =>
    rw [← hsame (by rw [Env.puts_iff.mp hput]; rfl), hset, Function.update_self]
    rfl
  | conflict hput _ hbound hmap =>
    rw [← hsame (by rw [Env.puts_iff.mp hput]; rfl), hmap, hbound]
    rfl

/-- **Acknowledged objects are immutable.** Once any request about a content
address has been answered 200 or 409, the object is there with its bytes in every
later state, whoever else is writing it, fails, gives up or is late, and whatever
else is deleted. -/
theorem immutable {w₀ : World} {ls₀ : List Label} {bytes : Bytes} (haddr : Addresses env key bytes)
    (hinitial : ∀ b, initial key = some b → b = bytes)
    (hrun₀ : Run (World.step env) (fun _ l => l ≠ .delete key) (init initial) ls₀ w₀)
    (hkey : (env.role r).key = some key) (hans : w₀.tasks r = .answered response)
    (hstatus : response.status = 200 ∨ response.status = 409)
    (hrun : Run (World.step env) (fun _ l => l ≠ .delete key) w₀ ls w) :
    w.bucket.objects key = some bytes := by
  obtain ⟨pre, l, post, u, v, -, -, -, -, hpost, hmoment⟩ :=
    moment_of_answer .nil rfl hrun₀ hans hstatus
  have hbound : w.Bound key :=
    (hpost.trans hrun).invariant (I := fun w => w.Bound key) (fun _ _ _ hb hl h => hb.step h hl)
      (hmoment.bound hkey)
  obtain ⟨found, hfound⟩ := Option.isSome_iff_exists.mp hbound
  -- whatever is there has been received whole
  have hw : Intact env initial w :=
    (hrun₀.trans hrun).invariant (fun _ _ _ hw _ h => hw.step h) intact_init
  rw [hfound]
  rcases hw.objects hfound with hold | ⟨q, hrole, hc, rfl, -⟩
  · rw [hinitial found hold]
  · rw [haddr q (Env.puts_iff.mpr hrole) hc]

omit [RustChar] in
/-- Its object is there when another one has been deleted, and time has passed. -/
theorem putOnly_immutable :
    ∃ w, Run (@World.step asciiChars onePut) (fun _ l => l ≠ .delete "abc") (init fun _ => none)
        (putOnly ++ [.arrive 1, .delete "abd", .tick 7]) w ∧
      w.bucket.objects "abc" = some [1, 2, 3] := by
  let _ : RustChar := asciiChars
  obtain ⟨w₀, hrun₀, hans, hrest⟩ : ∃ w₀,
      Run (World.step onePut) (fun _ l => l ≠ .delete "abc") (init fun _ => none) putOnly w₀ ∧
      (w₀.tasks 0).response =
        some ⟨200, some "text/plain; charset=utf-8", some "close", .text ""⟩ ∧
      (exec (World.step onePut) (fun _ (l : Label) => decide (l ≠ .delete "abc")) w₀
        [.arrive 1, .delete "abd", .tick 7]).any (fun w => w.clock = 7) = true :=
    exists_run_of_exec (fun _ _ h => of_decide_eq_true h)
      (show (exec _ (fun _ (l : Label) => decide (l ≠ .delete "abc")) _ _).any _ = true by decide)
  obtain ⟨w, hrun, -⟩ : ∃ w, Run (World.step onePut) (fun _ l => l ≠ .delete "abc") w₀
      [.arrive 1, .delete "abd", .tick 7] w ∧ w.clock = 7 :=
    exists_run_of_exec (fun _ _ h => of_decide_eq_true h) hrest
  rw [Task.response_eq_some] at hans
  refine ⟨w, hrun₀.trans hrun, immutable ?_ ?_ hrun₀ ?_ hans (Or.inl rfl) hrun⟩
  · intro q hput _
    match q, hput with
    | 0, _ => rfl
    | q + 1, hput => exact absurd (show Method.get = .put from hput.method) (by decide)
  · intro b hno
    cases hno
  · have hput : onePut.Puts 0 "abc" := Env.puts_example rfl
    rw [Env.puts_iff.mp hput]
    rfl

end World

end NxCacheServer.System
