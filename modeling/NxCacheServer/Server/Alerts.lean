import NxCacheServer.Server.Answers
import NxCacheServer.Server.Served

/-!
# Alerts

The ERROR lines with an `operation` are what an operator alerts on, since the
statuses hide failures. `serve_reported`: they are, one for one and in order,
the S3 calls of the request that failed. What they miss is an object whose body
breaks off while it is streamed to the client (`reported_iff_unbroken`).

The account has two sides: what has failed so far, and what has been reported so
far. Each function leaves them equal if it finds them equal (`Balanced`), since the
line comes right after the reply and before anything else that may fail. A body that
breaks off while axum streams it is behind the last action of the task, so it is on
neither side.

All calls have the same shape, a request and then a branch on its reply, so they
share one rule (`balanced_s3`): it is enough that the branch of a failure begins with
its line and goes on balanced, and that the other branches are balanced.
-/

namespace NxCacheServer.Server

open NxCacheServer.Domain NxCacheServer.Infra NxCacheServer.Lib

/-- The operation that a reply shows to have failed, and its key. *Not found* is
an answer. -/
def s3Failure : (call : S3Call) → call.Reply → Option (String × Hash)
  | .headObject key, Except.error (HeadError.other _) => some ("head", key)
  | .getObject key, Except.error (GetError.other _) => some ("get", key)
  | .putObject key _, Except.error _ => some ("put", key)
  | .createMultipartUpload _, Except.ok (some _) => none
  | .createMultipartUpload key, _ => some ("multipart-create", key)
  | .uploadPart _ _ _ _ _, Except.ok (some _) => none
  | .uploadPart key _ _ _ _, _ => some ("multipart-part", key)
  | .completeMultipartUpload key _ _, Except.error _ => some ("multipart-complete", key)
  | .abortMultipartUpload key _, Except.error _ => some ("multipart-abort", key)
  | _, _ => none

/-- The failed S3 interaction an event stands for. -/
def failure : TaskEvent → Option (String × Hash)
  | ⟨.s3 call, reply⟩ => s3Failure call reply
  | _ => none

/-- The operation and key of an ERROR line that carries an operation. -/
def alert : TaskEvent → Option (String × Hash)
  | ⟨.log (.s3Error operation hash _), _⟩ => some (operation, hash)
  | ⟨.log (.s3Missing operation hash _ _), _⟩ => some (operation, hash)
  | _ => none

/-- The read error that ends the streaming of a response's object, for the
`GetObject` it came from. -/
def interrupted (h : List TaskEvent) (response : Response) : List (String × Hash) :=
  match response.body with
  | .object ⟨_, some _⟩ => h.filterMap fun
    | ⟨.s3 (.getObject key), Except.ok _⟩ => some ("get", key)
    | _ => none
  | _ => []

/-- Every failed interaction is reported, once, and nothing else is. -/
def Reported (h : List TaskEvent) (response : Response) : Prop :=
  h.filterMap alert = h.filterMap failure ++ interrupted h response

/-! ## The calls -/

/-- The contract that keeps account of failures and alerts. -/
def ledger : Prog.Contract Act Act.Resp (List (String × Hash) × List (String × Hash)) where
  allow _ _ := True
  promise _ _ _ := True
  update g e r := (g.1 ++ (failure ⟨e, r⟩).toList, g.2 ++ (alert ⟨e, r⟩).toList)

/-- `p` leaves the account balanced. -/
def Balanced {α : Type} (p : Async α) : Prop :=
  ∀ g, g.1 = g.2 → p.wp ledger (fun _ g' => g'.1 = g'.2) g

section

variable {α β : Type}

theorem balanced_done (a : α) : Balanced (Prog.done a : Async α) := fun _ hg => hg

/-- Two parts that keep the account balanced do so in sequence. -/
theorem balanced_bind {p : Async α} {f : α → Async β} (hp : Balanced p)
    (hf : ∀ a, Balanced (f a)) : Balanced (p >>= f) :=
  fun g hg => Prog.wp_bind_of (hp g hg) fun a g' hg' => hf a g' hg'

/-- An action that neither fails nor reports. -/
theorem balanced_act {e : Act} {k : e.Resp → Async α} (hk : ∀ r, Balanced (k r))
    (hfailure : ∀ r, failure ⟨e, r⟩ = none := by intro r; rfl)
    (halert : ∀ r, alert ⟨e, r⟩ = none := by intro r; rfl) : Balanced (Prog.act e k) := by
  intro g hg
  refine ⟨trivial, ?_⟩
  intro r _
  refine hk r _ ?_
  simp [ledger, hfailure r, halert r, hg]

/-- An action that neither fails nor reports, however it is answered. -/
def Silent (e : Act) : Prop := ∀ r, failure ⟨e, r⟩ = none ∧ alert ⟨e, r⟩ = none

/-- Actions that neither fail nor report keep it balanced. -/
theorem balanced_of_only {p : Async α} (hp : Prog.Only Silent p) : Balanced p := by
  intro g hg
  refine hp.wp (fun _ _ _ _ => trivial) ?_ hg
  intro g e r he hg _
  obtain ⟨hfailure, halert⟩ := he r
  simp [ledger, hfailure, halert, hg]

/-- After the reply `r`, `k` goes on with the account balanced: a failure is
reported at once. -/
def Reports (call : S3Call) (k : call.Reply → Async α) (r : call.Reply) : Prop :=
  match s3Failure call r with
  | none => Balanced (k r)
  | some what => ∃ line k', k r = .act (.log line) k' ∧ alert ⟨.log line, ()⟩ = some what ∧
      Balanced (k' ())

/-- A call keeps it balanced if each of its failures is reported at once. -/
theorem balanced_s3 {call : S3Call} {k : call.Reply → Async α} (hk : ∀ r, Reports call k r) :
    Balanced (Prog.act (.s3 call) k) := by
  intro g hg
  refine ⟨trivial, ?_⟩
  intro r _
  have hr := hk r
  unfold Reports at hr
  split at hr
  next hnone =>
    refine hr _ ?_
    simp [ledger, failure, alert, hnone, hg]
  next what hsome =>
    obtain ⟨line, k', heq, halert, hk'⟩ := hr
    rw [heq]
    refine ⟨trivial, fun _ _ => hk' _ ?_⟩
    show (g.1 ++ (s3Failure call r).toList) ++ [] = (g.2 ++ []) ++ (alert ⟨.log line, ()⟩).toList
    rw [hsome, halert, hg, List.append_nil, List.append_nil]

end

/-! ### `S3Storage` -/

section

variable {hash : Hash} {id : UploadId} {body : Body}

theorem fillLoop_balanced (partSize : Nat) (data : Body) (n : Nat) (buffer : Bytes) :
    Balanced (fillLoop partSize hash data n buffer) :=
  balanced_of_only (fillLoop_only (fun _ _ _ => ⟨rfl, rfl⟩) (fun _ _ => ⟨rfl, rfl⟩) _ _ _ _)

theorem existsKey_balanced : Balanced (S3Storage.existsKey hash) := by
  rw [S3Storage.existsKey, Async.s3_bind]
  refine balanced_s3 ?_
  intro r
  rcases r with (_ | e) | u
  · exact balanced_done _
  · exact ⟨_, _, rfl, rfl, balanced_done _⟩
  · exact balanced_done _

theorem retrieve_balanced : Balanced (S3Storage.retrieve hash) := by
  rw [S3Storage.retrieve, Async.s3_bind]
  refine balanced_s3 ?_
  intro r
  rcases r with (_ | e) | object
  · exact balanced_done _
  · exact ⟨_, _, rfl, rfl, balanced_done _⟩
  · exact balanced_done _

theorem putWhole_balanced {buffer : Bytes} : Balanced (S3Storage.putWhole hash buffer) := by
  rw [S3Storage.putWhole, Async.s3_bind]
  refine balanced_s3 ?_
  intro r
  rcases r with e | u
  · exact ⟨_, _, rfl, rfl, balanced_done _⟩
  · exact balanced_done _

theorem createUpload_balanced : Balanced (S3Storage.createUpload hash) := by
  rw [S3Storage.createUpload, Async.s3_bind]
  refine balanced_s3 ?_
  intro r
  rcases r with e | _ | id
  · exact ⟨_, _, rfl, rfl, balanced_done _⟩
  · exact ⟨_, _, rfl, rfl, balanced_done _⟩
  · exact balanced_done _

/-- A part without an ETag is a failure too, and is reported as one. -/
theorem sendPart_balanced {n : Nat} {buffer : Bytes} :
    Balanced (S3Storage.sendPart hash id n buffer) := by
  rw [S3Storage.sendPart, Async.s3_bind]
  refine balanced_s3 ?_
  intro r
  rcases r with e | _ | eTag
  · exact ⟨_, _, rfl, rfl, balanced_done _⟩
  · exact ⟨_, _, rfl, rfl, balanced_done _⟩
  · exact balanced_done _

/-- A failed cleanup is reported besides the failure it cleans up after. -/
theorem finishUpload_balanced {result : Except StorageError (List CompletedPart)} :
    Balanced (S3Storage.finishUpload hash id result) := by
  cases result with
  | error err =>
    rw [S3Storage.finishUpload, Async.s3_bind]
    refine balanced_s3 ?_
    intro r
    rcases r with e | u
    · exact ⟨_, _, rfl, rfl, balanced_done _⟩
    · exact balanced_done _
  | ok parts =>
    rw [S3Storage.finishUpload, Async.s3_bind]
    refine balanced_s3 ?_
    intro r
    rcases r with e | u
    · exact ⟨_, _, rfl, rfl, balanced_done _⟩
    · exact balanced_done _

theorem flushBuffer_balanced {buffer : Bytes} {n : Nat} {parts : List CompletedPart} :
    Balanced (S3Storage.flushBuffer hash id buffer n parts) := by
  unfold S3Storage.flushBuffer
  split
  · exact balanced_done _
  · refine balanced_bind sendPart_balanced ?_
    intro sent
    cases sent <;> exact balanced_done _

/-- The upload loop reports at most one failed part: it stops there. -/
theorem uploadLoop_balanced {buffer : Bytes} {eof : Bool} {data : Body} {n k : Nat}
    {parts : List CompletedPart} :
    Balanced (S3Storage.uploadLoop hash id buffer eof data n k parts) := by
  intro g hg
  -- the account is balanced between two iterations
  refine S3Storage.uploadLoop_rule hash id (fun _ _ _ _ _ _ g => g.1 = g.2) ?_ _ _ _ _ _ _ g hg
  intro buffer eof data n k parts g hg
  refine Prog.wp_mono (flushBuffer_balanced g hg) ?_
  intro sent g' hg'
  rcases sent with e | ⟨k', parts'⟩
  · exact hg'
  · dsimp only
    split
    · exact hg'
    · refine Prog.wp_mono (fillLoop_balanced _ data n [] g' hg') ?_
      intro filled g'' hg''
      split <;> exact hg''

/-- `store` reports all that fails in it, in order. -/
theorem store_balanced : Balanced (S3Storage.store hash body) := by
  rw [S3Storage.store]
  refine balanced_bind (fillLoop_balanced _ _ _ _) ?_
  intro filled
  split
  · exact balanced_done _
  · exact balanced_bind putWhole_balanced fun _ => balanced_done _
  · refine balanced_bind createUpload_balanced ?_
    intro created
    cases created with
    | error e => exact balanced_done _
    | ok id =>
      refine balanced_bind uploadLoop_balanced ?_
      intro looped
      exact balanced_bind finishUpload_balanced fun _ => balanced_done _

end

/-! ### The handlers and the router -/

section

variable {hash : Hash} {body : Body}

theorem drainBodyWithin_balanced {limit : Duration} : Balanced (drainBodyWithin body limit) :=
  balanced_of_only (drainBodyWithin_only (fun _ _ _ => ⟨rfl, rfl⟩) (fun _ => ⟨rfl, rfl⟩) _ _)

theorem markPresent_balanced : Balanced (markPresent hash) := by
  rw [markPresent, Async.now_bind]
  exact balanced_act fun _ => balanced_act fun _ => balanced_done _

/-- A failed look is reported by the caller whose probe it was. -/
theorem present_balanced : Balanced (present hash (S3Storage.existsKey hash)) := by
  rw [present, Async.now_bind]
  refine balanced_act ?_
  intro t
  rw [Async.slot_bind]
  refine balanced_act ?_
  intro s
  rw [getOrTryInit, Async.acquire_bind]
  refine balanced_act ?_
  intro acquired
  cases acquired with
  | initialized value => exact balanced_done _
  | permit =>
    refine balanced_bind existsKey_balanced ?_
    intro found
    cases found <;> exact balanced_act fun _ => balanced_done _

theorem afterStore_balanced {result : Except StorageError Unit} :
    Balanced (afterStore hash body result) := by
  rcases result with e | u
  · cases e with
    | clientAbort => exact balanced_done _
    | _ => exact balanced_act fun _ => drainBodyWithin_balanced
  · exact markPresent_balanced

theorem intoResponse_balanced {result : Except ServerError Response} :
    Balanced (intoResponse result) := by
  rcases result with e | response
  · cases e with
    | storage err => cases err <;> exact balanced_done _
    | internalError => exact balanced_act fun _ => balanced_done _
    | _ => exact balanced_done _
  · exact balanced_done _

variable [RustChar] {config : ServerConfig} {request : Request}

theorem storeArtifact_balanced : Balanced (storeArtifact s3Storage hash body >>= intoResponse) := by
  rw [storeArtifact]
  split
  · exact balanced_bind (balanced_bind drainBodyWithin_balanced fun _ => balanced_done _)
      fun _ => intoResponse_balanced
  · rw [Prog.bind_assoc]
    refine balanced_bind existsKey_balanced ?_
    intro found
    split
    · refine balanced_bind (balanced_bind markPresent_balanced fun _ => ?_)
        fun _ => intoResponse_balanced
      exact balanced_bind drainBodyWithin_balanced fun _ => balanced_done _
    · rw [storeAbsent_eq]
      exact balanced_bind store_balanced fun _ =>
        balanced_bind afterStore_balanced fun _ => balanced_done _

theorem retrieveArtifact_balanced :
    Balanced (retrieveArtifact s3Storage hash >>= intoResponse) := by
  refine balanced_bind ?_ fun _ => intoResponse_balanced
  rw [retrieveArtifact]
  split
  · exact balanced_done _
  · refine balanced_bind present_balanced ?_
    intro found
    rw [retrieveProbed]
    split
    · refine balanced_bind retrieve_balanced ?_
      intro got
      cases got <;> exact balanced_done _
    · exact balanced_done _

theorem cacheRoutes_balanced : Balanced (cacheRoutes s3Storage request) := by
  unfold cacheRoutes
  split
  · exact balanced_done _
  · exact balanced_done _
  · exact storeArtifact_balanced
  · exact retrieveArtifact_balanced
  · exact retrieveArtifact_balanced

theorem authMiddleware_balanced :
    Balanced (authMiddleware config request (cacheRoutes s3Storage)) := by
  unfold authMiddleware
  split
  · exact balanced_done _
  · split
    · exact balanced_done _
    · split
      · exact balanced_bind drainBodyWithin_balanced fun _ => balanced_done _
      · exact balanced_bind cacheRoutes_balanced fun _ => balanced_done _

/-- A request reports all the calls of it that fail. -/
theorem serve_balanced : Balanced (serve s3Storage config request) :=
  balanced_bind authMiddleware_balanced fun _ =>
    balanced_bind intoResponse_balanced fun _ => balanced_done _

end

/-! ## The alerts of a request -/

theorem after_ledger (h : List TaskEvent) : ∀ g, ledger.after g h =
    (g.1 ++ h.filterMap failure, g.2 ++ h.filterMap alert) := by
  induction h with
  | nil => intro g; simp
  | cons ev h ih =>
    intro g
    rw [Prog.Contract.after_cons, ih, List.filterMap_cons, List.filterMap_cons]
    cases hf : failure ev <;> cases ha : alert ev <;> simp [ledger, hf, ha]

section

variable [RustChar] {config : ServerConfig} {request : Request} {h : List TaskEvent}
  {response : Response} {hash : Hash}

/-- The ERROR lines are the failed calls, in order. -/
theorem serve_reported (hrun : Prog.Runs (serve s3Storage config request) h response) :
    h.filterMap alert = h.filterMap failure := by
  have hkept : ledger.Kept ([], []) h :=
    Prog.Contract.Unpromising.kept (fun _ _ _ => trivial) h _
  have hbalanced := Prog.wp_runs hrun (serve_balanced ([], []) rfl) hkept
  rw [after_ledger] at hbalanced
  exact hbalanced.symm

/-! ## Objects that break off -/

/-- No object was obtained. -/
def NoObject (h : List TaskEvent) : Prop :=
  ∀ key object, (⟨.s3 (.getObject key), Except.ok object⟩ : TaskEvent) ∉ h

omit [RustChar] in
theorem noObject_of_only {h : List TaskEvent}
    (hall : ∀ ev ∈ h, ∀ key, ev.1 ≠ .s3 (.getObject key)) : NoObject h :=
  fun key _ hmem => hall _ hmem key rfl

omit [RustChar] in
theorem present_noObject {found : Except StorageError Bool}
    (hrun : Prog.Runs (present hash (S3Storage.existsKey hash)) h found) : NoObject h := by
  refine noObject_of_only (Prog.Only.runs (A := fun e => ∀ key, e ≠ .s3 (.getObject key)) ?_ hrun)
  rw [present, Async.now_bind, Prog.only_act]
  refine ⟨by simp, fun t => ?_⟩
  rw [Async.slot_bind, Prog.only_act]
  refine ⟨by simp, fun s => ?_⟩
  rw [getOrTryInit, Async.acquire_bind, Prog.only_act]
  refine ⟨by simp, fun acquired => ?_⟩
  cases acquired with
  | initialized value => trivial
  | permit =>
    refine Prog.only_bind ?_ ?_
    · rw [S3Storage.existsKey, Async.s3_bind, Prog.only_act]
      refine ⟨by simp, fun r => ?_⟩
      rcases r with (_ | e) | u
      · trivial
      · exact Prog.only_act.mpr ⟨by simp, fun _ => trivial⟩
      · trivial
    · intro found
      cases found <;> exact Prog.only_act.mpr ⟨by simp, fun _ => trivial⟩

omit [RustChar] in
/-- `retrieve` hands over the object it was given, or has none to hand over. -/
theorem retrieve_runs {result : Except StorageError ObjectBody}
    (hrun : Prog.Runs (S3Storage.retrieve hash) h result) :
    (∃ object, result = .ok object ∧ h = [⟨.s3 (.getObject hash), Except.ok object⟩]) ∨
      (∃ e, result = .error e) ∧ NoObject h := by
  rw [S3Storage.retrieve, Async.s3_bind, Prog.runs_act] at hrun
  obtain ⟨r, h', rfl, hrun⟩ := hrun
  rcases r with (_ | e) | object
  · obtain ⟨rfl, rfl⟩ := Prog.runs_done.mp hrun
    refine Or.inr ⟨⟨_, rfl⟩, fun key object hmem => ?_⟩
    cases List.mem_singleton.mp hmem
  · obtain ⟨_, h'', rfl, hend⟩ := Prog.runs_act.mp hrun
    obtain ⟨rfl, rfl⟩ := Prog.runs_done.mp hend
    refine Or.inr ⟨⟨_, rfl⟩, fun key object hmem => ?_⟩
    rcases List.mem_cons.mp hmem with hev | hmem
    · cases hev
    · cases List.mem_singleton.mp hmem
  · obtain ⟨rfl, rfl⟩ := Prog.runs_done.mp hrun
    exact Or.inl ⟨object, rfl, rfl⟩

/-- Only readers obtain objects. -/
theorem noObject_of_role (hrun : Prog.Runs (serve s3Storage config request) h response)
    (hrole : ∀ hash, role config request ≠ .reader hash) : NoObject h := by
  intro key object hmem
  obtain ⟨pre, post, heq⟩ := List.append_of_mem hmem
  have hallowed := Prog.wp_runs_allowed hrun (session_unpromising _ _) serve_session heq
  -- the contract of the session allows `GetObject` to readers only
  cases hr : role config request with
  | reader hash => exact hrole hash hr
  | writer hash =>
    rw [hr] at hallowed
    exact hallowed
  | refused answer =>
    rw [hr] at hallowed
    exact hallowed

omit [RustChar] in
/-- The last layer makes no object of what is none. -/
theorem finalize_body_ne {inner : Response} (hinner : ∀ object, inner.body ≠ .object object)
    (object : ObjectBody) : (finalize request inner).body ≠ .object object := by
  unfold finalize
  split
  · exact ResponseBody.noConfusion
  · exact hinner object

/-- Only a hit obtains an object, one, and answers with it. -/
theorem object_cases (hrun : Prog.Runs (serve s3Storage config request) h response) :
    NoObject h ∧ (∀ object, response.body ≠ .object object) ∨
      request.method.isRead = true ∧ ∃ pre hash object, NoObject pre ∧
        h = pre ++ [⟨.s3 (.getObject hash), Except.ok object⟩] ∧
        response = finalize request (retrieveReply (.ok object)) := by
  obtain ⟨inner, rfl, ha⟩ := serve_runs hrun
  cases hrole : role config request with
  | writer hash =>
    rw [hrole] at ha
    refine Or.inl ⟨noObject_of_role hrun (by simp [hrole]), finalize_body_ne ?_⟩
    rcases (storeArtifact_runs_iff ha.1).mp ha.2 with ⟨-, rfl⟩ | ⟨result, -, rfl⟩
    · simp [textReply]
    · rcases result with e | u
      · cases e <;> simp [storeReply, plainText]
      · simp [storeReply, textReply]
  | refused answer =>
    rw [hrole] at ha
    refine Or.inl ⟨noObject_of_role hrun (by simp [hrole]), finalize_body_ne ?_⟩
    rw [show inner = answer from ha]
    rcases refused_cases hrole with rfl | rfl | rfl | rfl | rfl <;>
      simp [plainText, methodNotAllowed, pathRejection, textReply]
  -- a reader that misses obtains nothing, and one that hits ends with `GetObject`
  | reader hash =>
    rw [hrole] at ha
    rcases (retrieveArtifact_runs_iff ha.1).mp ha.2 with ⟨⟨found, -, hpresent⟩, rfl⟩ |
      ⟨result, ⟨h₁, h₂, rfl, hpresent, hretrieve⟩, rfl⟩
    · exact Or.inl ⟨present_noObject hpresent, finalize_body_ne (by simp [plainText])⟩
    · rcases retrieve_runs hretrieve with ⟨object, rfl, rfl⟩ | ⟨⟨e, rfl⟩, hno⟩
      · exact Or.inr ⟨(role_reader hrole).1, h₁, hash, object, present_noObject hpresent, rfl, rfl⟩
      · refine Or.inl ⟨?_, finalize_body_ne (by simp [retrieveReply, plainText])⟩
        intro key object hmem
        rcases List.mem_append.mp hmem with hmem | hmem
        · exact present_noObject hpresent key object hmem
        · exact hno key object hmem

/-- **When no failure is silent.** Every failed S3 interaction of a request is
reported exactly once, if and only if no object breaks off while it is streamed
to the client. -/
theorem reported_iff_unbroken (hrun : Prog.Runs (serve s3Storage config request) h response) :
    Reported h response ↔ ∀ key object, request.method = .get →
      (⟨.s3 (.getObject key), Except.ok object⟩ : TaskEvent) ∈ h → object.breaksAt = none := by
  unfold Reported
  rw [serve_reported hrun, List.self_eq_append_right]
  rcases object_cases hrun with ⟨hno, hbody⟩ | ⟨hread, pre, hash, object, hpre, rfl, rfl⟩
  · refine iff_of_true ?_ (fun key object _ hmem => absurd hmem (hno key object))
    -- no object, so nothing can break off
    unfold interrupted
    split
    next bytes n heq => exact absurd heq (hbody _)
    next => rfl
  · -- the one object obtained is the one that is streamed, if the method is GET
    have hone : ∀ key object', (⟨.s3 (.getObject key), Except.ok object'⟩ : TaskEvent) ∈
        pre ++ [⟨.s3 (.getObject hash), Except.ok object⟩] → object' = object := by
      intro key object' hmem
      rcases List.mem_append.mp hmem with hmem | hmem
      · exact absurd hmem (hpre key object')
      · cases List.mem_singleton.mp hmem
        rfl
    unfold interrupted finalize
    by_cases hhead : request.method = .head
    · rw [if_pos hhead]
      refine iff_of_true rfl ?_
      intro key object' hget
      rw [hhead] at hget
      cases hget
    · rw [if_neg hhead]
      have hget : request.method = .get := by
        cases hm : request.method with
        | get => rfl
        | head => exact absurd hm hhead
        | _ => rw [hm] at hread; cases hread
      obtain ⟨bytes, breaksAt⟩ := object
      cases breaksAt with
      | none =>
        refine iff_of_true rfl ?_
        intro key object' _ hmem
        rw [hone key object' hmem]
      | some n =>
        refine iff_of_false ?_ ?_
        · simp [retrieveReply, Response.close]
        · intro hall
          cases hall hash ⟨bytes, some n⟩ hget (by simp)

/-- `GET /v1/cache/abc` with the read-only token. -/
def smallGet : Request where
  method := .get
  segment := .abc
  authorization := bearer "ro"
  body := .eof 0

/-- A probe that finds the object, and a `GetObject` whose body breaks off
after `breaksAt` bytes. -/
def getHistory (breaksAt : Option Nat) : List TaskEvent :=
  [⟨.now, 0⟩, ⟨.slot "abc" 0, 0⟩, ⟨.acquire 0, .permit⟩, ⟨.s3 (.headObject "abc"), Except.ok ()⟩,
    ⟨.settle 0 (some true), ()⟩,
    ⟨.s3 (.getObject "abc"), Except.ok (ObjectBody.mk [1, 2, 3] breaksAt)⟩]

omit [RustChar] in
/-- The client of such a GET is answered 200 with the object, broken or not. -/
theorem getHistory_runs (breaksAt : Option Nat) :
    Prog.Runs (@serve asciiChars s3Storage ⟨3000, "rw", some "ro"⟩ smallGet) (getHistory breaksAt)
      ⟨200, some "application/octet-stream", some "close", .object ⟨[1, 2, 3], breaksAt⟩⟩ :=
  .act (.act (.act (.act (.act (.act (.done _))))))

omit [RustChar] in
/-- A client is sent a truncated object with a 200, and no line says so. -/
theorem brokenObject_silent :
    ∃ h response,
      Prog.Runs (@serve asciiChars s3Storage ⟨3000, "rw", some "ro"⟩ smallGet) h response ∧
        response.status = 200 ∧ interrupted h response = [("get", "abc")] ∧
        h.filterMap alert = [] ∧ ¬ Reported h response := by
  refine ⟨_, _, getHistory_runs (some 1), rfl, rfl, rfl, ?_⟩
  intro h
  cases h

/-- S3 cannot be reached. -/
def noRoute : SdkError := ⟨none, none, "DispatchFailure"⟩

/-- A look for the object that fails, which counts as a miss. -/
def failedLook : List TaskEvent :=
  [⟨.now, 0⟩, ⟨.slot "abc" 0, 0⟩, ⟨.acquire 0, .permit⟩,
    ⟨.s3 (.headObject "abc"), Except.error (HeadError.other noRoute)⟩,
    ⟨.log (.s3Error "head" "abc" noRoute), ()⟩, ⟨.settle 0 none, ()⟩]

omit [RustChar] in
theorem failedLook_reported :
    ∃ h response,
      Prog.Runs (@serve asciiChars s3Storage ⟨3000, "rw", some "ro"⟩ smallGet) h response ∧
        response.status = 404 ∧ h.filterMap failure = [("head", "abc")] ∧
        Reported h response := by
  have hrun : Prog.Runs (@serve asciiChars s3Storage ⟨3000, "rw", some "ro"⟩ smallGet) failedLook
      (plainText 404 "The record was not found").close :=
    .act (.act (.act (.act (.act (.act (.done _))))))
  refine ⟨_, _, hrun, rfl, rfl, (@reported_iff_unbroken asciiChars _ _ _ _ hrun).mpr ?_⟩
  intro key object _ hmem
  simp only [failedLook, List.mem_cons, List.not_mem_nil, or_false] at hmem
  rcases hmem with hev | hev | hev | hev | hev | hev <;> cases hev

end

end NxCacheServer.Server
