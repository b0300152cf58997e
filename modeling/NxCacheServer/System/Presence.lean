import NxCacheServer.System.Integrity

/-!
# Evidence that an object is there

In a run in which nothing is deleted an object that is there stays. So a reply
of S3 that says it is there is right for good (`Evident`), and one that says it
is not was right when S3 gave it: a request that starts when the object is
there never gets such a reply (`Late`). S3 may fail and clients may go away as
they like.

`Evident` is about all requests at once, `Late` about one from the time it comes.
Both speak of the replies on their way as well as of those delivered, since S3 may
have answered long before the request hears of it.
-/

namespace NxCacheServer.System

open NxCacheServer.Domain NxCacheServer.Infra NxCacheServer.Server NxCacheServer.Lib

/-- No object is deleted from outside. -/
def Label.Keeps : Label → Prop
  | .delete _ => False
  | _ => True

/-- A step that deletes nothing deletes no object in particular. -/
theorem Label.Keeps.ne_delete {l : Label} {key : Hash} (h : l.Keeps) : l ≠ .delete key := by
  rintro rfl
  exact h

instance : DecidablePred Label.Keeps := fun l =>
  match l with
  | .delete _ => isFalse not_false
  | .tick _ => isTrue trivial
  | .arrive _ => isTrue trivial
  | .run _ => isTrue trivial
  | .serve _ _ => isTrue trivial
  | .deliver _ => isTrue trivial
  | .cancel _ => isTrue trivial
  | .stray _ _ => isTrue trivial

/-- The reply says that the object of `key` is there. -/
def SaysPresent (key : Hash) : (call : S3Call) → call.Reply → Prop
  | .headObject key', reply => key' = key ∧ reply = Except.ok ()
  | .putObject key' _, reply => key' = key ∧ reply = Except.ok ()
  | .completeMultipartUpload key' _ _, reply => key' = key ∧ reply = Except.ok ()
  | _, _ => False

/-- The reply says that the object asked for is not there. -/
def SaysAbsent : (call : S3Call) → call.Reply → Prop
  | .headObject _, reply => reply = Except.error HeadError.notFound
  | .getObject _, reply => reply = Except.error GetError.noSuchKey
  | _, _ => False

/-! ## One reply -/

section

variable {bucket : Bucket} {eTagOf : Bytes → ETag} {call : S3Call} {key : Hash} {fate : Fate}

/-- What S3 says is there is there once it has said so. -/
theorem SaysPresent.bound
    (h : SaysPresent key call (fate.reply call (bucket.reply eTagOf call))) :
    ((if fate.served then bucket.apply eTagOf call else bucket).objects key).isSome = true := by
  cases call with
  | headObject key' =>
    obtain ⟨rfl, hreply⟩ := h
    cases fate with
    | fail err => cases hreply
    | _ =>
      rcases bucket.reply_headObject eTagOf key' with ⟨hsome, -⟩ | ⟨-, hno⟩
      · exact hsome
      · rw [show bucket.reply eTagOf (.headObject key') = Except.ok () from hreply] at hno
        cases hno
  | putObject key' body =>
    obtain ⟨rfl, hreply⟩ := h
    cases fate with
    | fail err => cases hreply
    | _ => simp [Fate.served, Bucket.apply, Bucket.setObject]
  | completeMultipartUpload key' id parts =>
    obtain ⟨rfl, hreply⟩ := h
    cases hassemble : bucket.assemble key' id parts with
    | none =>
      cases fate with
      | fail err => cases hreply
      | _ =>
        rw [show bucket.reply eTagOf (.completeMultipartUpload key' id parts) = _ from
          Bucket.reply_refused hassemble] at hreply
        cases hreply
    | some bytes =>
      cases fate with
      | fail err => cases hreply
      | _ => simp [Fate.served, Bucket.apply, hassemble, Bucket.setUpload, Bucket.setObject]
  | _ => exact absurd h not_false

/-- S3 does not say of an object that is there that it is not. -/
theorem not_saysAbsent (hbound : (bucket.objects key).isSome = true)
    (hcall : call = .headObject key ∨ call = .getObject key) :
    ¬ SaysAbsent call (fate.reply call (bucket.reply eTagOf call)) := by
  intro h
  rcases hcall with rfl | rfl
  · rcases bucket.reply_headObject eTagOf key with ⟨-, hreply⟩ | ⟨hnone, -⟩
    · rw [hreply] at h
      cases fate <;> cases h
    · rw [hnone] at hbound
      cases hbound
  · rcases bucket.reply_getObject eTagOf key with ⟨bytes, -, hreply⟩ | ⟨hnone, -⟩
    · rw [hreply] at h
      cases fate <;> cases h
    · rw [hnone] at hbound
      cases hbound

end

namespace World

variable [RustChar] {env : Env} {w w' : World} {l : Label} {r : ReqId} {call : S3Call} {key : Hash}

/-- The object of `key` is there. -/
def Bound (w : World) (key : Hash) : Prop := (w.bucket.objects key).isSome = true

/-- It stays until it is deleted from outside. -/
theorem Bound.step (hb : w.Bound key) (h : w.step env l = some w') (hl : l ≠ .delete key) :
    w'.Bound key := by
  unfold Bound at hb ⊢
  cases step_cases h with
  | served htask hf => exact Bucket.isSome_objects_apply hb
  | stray hp => exact Bucket.isSome_objects_apply hb
  | @delete key' =>
    have hne : key ≠ key' := fun heq => hl (heq ▸ rfl)
    dsimp only [Bucket.setObject]
    rw [Function.update_of_ne hne]
    exact hb
  | _ => exact hb

/-! ## What requests know -/

/-- All evidence that an object is there is right. -/
structure Evident (env : Env) (w : World) : Prop where
  tracks : Tracks env w
  sessions : ∀ {r key}, (env.role r).key = some key →
    (w.session env r).probe = some (.ok ()) ∨ (w.session env r).wrote = true → w.Bound key
  replies : ∀ {r key call since reply k}, w.tasks r = .calling call since (some reply) k →
    SaysPresent key call reply → w.Bound key

theorem evident_init {objects : Hash → Option Bytes} : Evident env (init objects) where
  tracks := tracks_init
  sessions _ h := by rcases h with h | h <;> cases h
  replies h := by cases h

omit [RustChar] in
/-- A session learns that the object is there from a reply that says so. -/
theorem learn_present {g : Session} {e : Act} {resp : e.Resp} {role : Role} {body : Body}
    (ha : g.Allows role body e) (hkey : role.key = some key)
    (h : (g.learn e resp).probe = some (.ok ()) ∨ (g.learn e resp).wrote = true) :
    g.probe = some (.ok ()) ∨ g.wrote = true ∨
      ∃ call reply, (⟨e, resp⟩ : TaskEvent) = ⟨.s3 call, reply⟩ ∧ SaysPresent key call reply := by
  have hlocal : (∀ call, e ≠ .s3 call) → g.probe = some (.ok ()) ∨ g.wrote = true := by
    intro he
    obtain ⟨hprobe, -, -, -, hwrote, -⟩ := learn_local g resp he
    rw [hprobe, hwrote] at h
    exact h
  cases e with
  | s3 call =>
    -- a request asks about its own key only
    have hcall : call.key = key := Option.some.inj ((key_of_allows ha).symm.trans hkey)
    cases call with
    | headObject key' =>
      rcases h with h | h
      · exact Or.inr (Or.inr ⟨_, _, rfl, hcall, Option.some.inj h⟩)
      · exact Or.inr (Or.inl h)
    | getObject key' => exact h.imp_right Or.inl
    | putObject key' body =>
      cases resp with
      | error err => exact h.imp_right Or.inl
      | ok u => exact Or.inr (Or.inr ⟨_, _, rfl, hcall, rfl⟩)
    | createMultipartUpload key' => rcases resp with err | _ | id <;> exact h.imp_right Or.inl
    | uploadPart key' id n len body =>
      rcases resp with err | _ | eTag <;> exact h.imp_right Or.inl
    | completeMultipartUpload key' id parts =>
      cases resp with
      | error err => exact h.imp_right Or.inl
      | ok u => exact Or.inr (Or.inr ⟨_, _, rfl, hcall, rfl⟩)
    | abortMultipartUpload key' id => exact h.imp_right Or.inl
  | _ => exact (hlocal (by simp)).imp_right Or.inl

/-- Evidence stays right, as long as nothing is deleted. -/
theorem Evident.step (hw : Evident env w) (h : w.step env l = some w') (hl : l.Keeps) :
    Evident env w' where
  tracks := hw.tracks.step h
  sessions {r key} hkey hknown := by
    -- an object that is there stays: what was known before is enough
    refine Bound.step ?_ h hl.ne_delete
    cases learns_of_step hw.tracks h r with
    | nothing heq =>
      rw [heq] at hknown
      exact hw.sessions hkey hknown
    | act e resp hlocal hallows heq =>
      rw [heq] at hknown
      rcases learn_present hallows hkey hknown with hp | hwrote | ⟨call, reply, hev, -⟩
      · exact hw.sessions hkey (Or.inl hp)
      · exact hw.sessions hkey (Or.inr hwrote)
      · cases hev
        exact absurd rfl (hlocal call)
    | reply call since reply k htask hallows heq =>
      rw [heq] at hknown
      rcases learn_present hallows hkey hknown with hp | hwrote | ⟨call', reply', hev, hsays⟩
      · exact hw.sessions hkey (Or.inl hp)
      · exact hw.sessions hkey (Or.inr hwrote)
      · cases hev
        exact hw.replies htask hsays
  replies {r key call since reply k} htask hsays := by
    rcases reply_of_step h htask with hold | ⟨fate, -, -, rfl, hbucket⟩
    · exact (hw.replies hold hsays).step h hl.ne_delete
    · unfold Bound
      rw [hbucket]
      exact hsays.bound

/-! ## Requests that start when the object is there -/

/-- No reply has told `r` that the object is not there. -/
structure Late (env : Env) (w : World) (r : ReqId) : Prop where
  probe : (w.session env r).probe ≠ some (.error .notFound)
  got : (w.session env r).got ≠ some (.error .noSuchKey)
  replies : ∀ {call since reply k}, w.tasks r = .calling call since (some reply) k →
    ¬ SaysAbsent call reply

/-- A request that has not come will come late. -/
theorem late_of_absent (ht : Tracks env w) (htask : w.tasks r = .absent) : Late env w r where
  probe h := by
    rw [ht.session_absent htask] at h
    cases h
  got h := by
    rw [ht.session_absent htask] at h
    cases h
  replies h := by
    rw [htask] at h
    cases h

omit [RustChar] in
/-- A session learns that the object is not there from a reply that says so. -/
theorem learn_absent {g : Session} {e : Act} {resp : e.Resp}
    (h : (g.learn e resp).probe = some (.error .notFound) ∨
      (g.learn e resp).got = some (.error .noSuchKey)) :
    (g.probe = some (.error .notFound) ∨ g.got = some (.error .noSuchKey)) ∨
      ∃ call reply, (⟨e, resp⟩ : TaskEvent) = ⟨.s3 call, reply⟩ ∧ SaysAbsent call reply := by
  unfold Session.learn at h
  split at h
  case h_1 key reply =>
    rcases h with h | h
    · exact Or.inr ⟨_, _, rfl, Option.some.inj h⟩
    · exact Or.inl (Or.inr h)
  case h_2 key reply =>
    rcases h with h | h
    · exact Or.inl (Or.inl h)
    · exact Or.inr ⟨_, _, rfl, Option.some.inj h⟩
  all_goals exact Or.inl h

/-- It finds the object that is there, and nothing else. -/
theorem Late.step (hr : Late env w r) (ht : Tracks env w) (hb : w.Bound key)
    (hkey : (env.role r).key = some key) (h : w.step env l = some w') : Late env w' r := by
  -- what it is told now was on its way, and `replies` has it right
  have hlearn : ¬ ((w'.session env r).probe = some (.error .notFound) ∨
      (w'.session env r).got = some (.error .noSuchKey)) := by
    intro hknown
    have hold := not_or.mpr ⟨hr.probe, hr.got⟩
    cases learns_of_step ht h r with
    | nothing heq =>
      rw [heq] at hknown
      exact hold hknown
    | act e resp hlocal _ heq =>
      rw [heq] at hknown
      rcases learn_absent hknown with hknown | ⟨call, reply, hev, -⟩
      · exact hold hknown
      · cases hev
        exact hlocal call rfl
    | reply call since reply k htask _ heq =>
      rw [heq] at hknown
      rcases learn_absent hknown with hknown | ⟨call', reply', hev, hsays⟩
      · exact hold hknown
      · cases hev
        exact hr.replies htask hsays
  refine ⟨fun hp => hlearn (Or.inl hp), fun hg => hlearn (Or.inr hg), ?_⟩
  intro call since reply k htask hsays
  rcases reply_of_step h htask with hold | ⟨fate, -, hcalling, rfl, -⟩
  · exact hr.replies hold hsays
  · have hcall : call.key = key :=
      Option.some.inj ((key_of_allows (ht.allows_call hcalling)).symm.trans hkey)
    cases call with
    | headObject key' => exact not_saysAbsent hb (Or.inl (congrArg _ hcall)) hsays
    | getObject key' => exact not_saysAbsent hb (Or.inr (congrArg _ hcall)) hsays
    | _ => exact hsays

end World

end NxCacheServer.System
