import NxCacheServer.Server.Access
import NxCacheServer.Server.Session

/-!
# How requests are answered

The responses of the cache route for any storage provider and any result it
may return. Refusals come in a fixed order (`role_eq`, `routeRole_handled`); a
writer's answer is decided by what `exists` and `store` returned, a reader's by
`present` and `retrieve`. None of them is a 5xx: `honest_answers`.

The proof goes from the inside out: first what each handler comes to
(`storeArtifact_runs_iff`, `retrieveArtifact_runs_iff`), then the role a request has
by its token, its method and its path, then the two put together. The conditions on
`store` and `retrieve` are about runs of the provider's own functions, so nothing is
assumed of a provider.

`Answers` is what is known of a request that has got past the layers around the
handlers (`serve_runs`), and `Honest` what the clients see of it. In between there is
one lemma for each role: `Answers.writer`, `Answers.reader`, `Answers.refused`. A
status of a PUT or of a read is then decided by the role alone (`Answers.put_iff`,
`Answers.read_iff`), and `honest_answers` only has to name the pieces.
-/

namespace NxCacheServer.Server

open NxCacheServer.Domain NxCacheServer.Infra NxCacheServer.Lib

/-! ## What a history says about the storage calls -/

section

variable (storage : StorageProvider) (hash : Hash) (body : Body) (h : List TaskEvent)

/-- What `store_artifact` does after `store`: it calls the storage no more. -/
def afterStore (rest : Body) : Except StorageError Unit → Async Unit
  | .ok () => markPresent hash
  | .error .clientAbort => pure ()
  | .error e => do
    Async.log (.storeDeclined hash e)
    drainBodyWithin rest drainTimeout

/-- `exists` was called and returned `Ok(true)`; then the body was drained. -/
def ExistsFound : Prop :=
  ∃ h₁ h₂ h₃, h = h₁ ++ (h₂ ++ h₃) ∧ Prog.Runs (storage.existsKey hash) h₁ (.ok true) ∧
    Prog.Runs (markPresent hash) h₂ () ∧ Prog.Runs (drainBody body) h₃ ()

/-- `exists` did not return `Ok(true)`; then `store` was called once and
returned `result`. -/
def StoreReturned (result : Except StorageError Unit) : Prop :=
  ∃ h₁ h₂ h₃ found rest, h = h₁ ++ (h₂ ++ h₃) ∧ Prog.Runs (storage.existsKey hash) h₁ found ∧
    found ≠ .ok true ∧ Prog.Runs (storage.store hash body) h₂ (result, rest) ∧
    Prog.Runs (afterStore hash rest result) h₃ ()

/-- The existence probe yielded `Ok(true)` and `retrieve` returned `result`. -/
def RetrieveReturned (result : Except StorageError ObjectBody) : Prop :=
  ∃ h₁ h₂, h = h₁ ++ h₂ ∧ Prog.Runs (present hash (storage.existsKey hash)) h₁ (.ok true) ∧
    Prog.Runs (storage.retrieve hash) h₂ result

/-- The existence probe yielded something else. -/
def NotPresent : Prop :=
  ∃ found, found ≠ .ok true ∧ Prog.Runs (present hash (storage.existsKey hash)) h found

end

/-- How the result of `store` is answered. -/
def storeReply : Except StorageError Unit → Response
  | .ok () => textReply 200 ""
  | .error .clientAbort => plainText 400 "Client disconnected during upload"
  | .error _ => plainText 403 "Forbidden"

/-- How the result of `retrieve` is answered. -/
def retrieveReply : Except StorageError ObjectBody → Response
  | .ok object => ⟨200, some "application/octet-stream", none, .object object⟩
  | .error _ => plainText 404 "The record was not found"

/-! ## The handlers -/

section

variable {storage : StorageProvider} {hash : Hash} {body : Body} {h : List TaskEvent}
  {response : Response}

/-- `unwrap_or(false)`: only `Ok(true)` counts as there. -/
theorem toOption_getD_false {found : Except StorageError Bool} :
    found.toOption.getD false = true ↔ found = .ok true := by
  cases found <;> simp [Except.toOption]

/-- The branch that stores, with its answer split off. -/
theorem storeAbsent_eq : storeAbsent storage hash body >>= intoResponse =
    storage.store hash body >>= fun r =>
      afterStore hash r.2 r.1 >>= fun _ => .done (storeReply r.1) := by
  rw [storeAbsent, Prog.bind_assoc]
  refine congrArg _ (funext ?_)
  intro r
  obtain ⟨result, rest⟩ := r
  cases result with
  | ok u => exact Prog.bind_assoc _ _ _
  | error e =>
    cases e with
    | clientAbort => rfl
    | _ =>
      simp only [afterStore, Async.log_bind, Prog.act_bind, Prog.bind_assoc]
      rfl

/-- A program followed by a fixed answer runs as the program does. -/
theorem runs_then {p : Async Unit} {answer : Response} :
    Prog.Runs (p >>= fun _ => .done answer) h response ↔ Prog.Runs p h () ∧ response = answer := by
  rw [Prog.runs_bind]
  constructor
  · intro hrun
    obtain ⟨h₁, _, h₂, rfl, hp, hend⟩ := hrun
    obtain ⟨rfl, rfl⟩ := Prog.runs_done.mp hend
    rw [List.append_nil]
    exact ⟨hp, rfl⟩
  · intro hrun
    obtain ⟨hp, rfl⟩ := hrun
    exact ⟨h, (), [], (List.append_nil h).symm, hp, .done _⟩

variable [RustChar]

/-- What a writer with a valid key does, and what it is answered: it finds the
object, or it stores. -/
theorem storeArtifact_runs_iff (hvalid : ValidHash hash) :
    Prog.Runs (storeArtifact storage hash body >>= intoResponse) h response ↔
      ExistsFound storage hash body h ∧
        response = textReply 409 "Cannot override an existing record" ∨
      ∃ result, StoreReturned storage hash body h result ∧ response = storeReply result := by
  have hfound : ∀ h', Prog.Runs (markPresent hash >>= fun _ => drainBody body >>= fun _ =>
      .done (textReply 409 "Cannot override an existing record")) h' response ↔
        ∃ h₂ h₃, h' = h₂ ++ h₃ ∧ Prog.Runs (markPresent hash) h₂ () ∧
          Prog.Runs (drainBody body) h₃ () ∧
          response = textReply 409 "Cannot override an existing record" := by
    intro h'
    rw [Prog.runs_bind]
    simp only [runs_then]
    exact ⟨fun ⟨h₂, _, h₃, heq, hm, hd⟩ => ⟨h₂, h₃, heq, hm, hd⟩,
      fun ⟨h₂, h₃, heq, hm, hd⟩ => ⟨h₂, (), h₃, heq, hm, hd⟩⟩
  rw [storeArtifact, show validateHash hash = .ok () from hvalid]
  dsimp only
  rw [Prog.bind_assoc, Prog.runs_bind]
  constructor
  · intro hrun
    obtain ⟨h₁, found, h', rfl, hexists, hrun⟩ := hrun
    by_cases hok : found = .ok true
    · subst hok
      rw [if_pos (toOption_getD_false.mpr rfl), Prog.bind_assoc] at hrun
      simp only [Prog.bind_assoc] at hrun
      obtain ⟨h₂, h₃, rfl, hmark, hdrain, hanswer⟩ := (hfound h').mp hrun
      exact Or.inl ⟨⟨h₁, h₂, h₃, rfl, hexists, hmark, hdrain⟩, hanswer⟩
    · rw [if_neg (mt toOption_getD_false.mp hok), storeAbsent_eq, Prog.runs_bind] at hrun
      obtain ⟨h₂, ⟨result, rest⟩, h₃, rfl, hstore, hrun⟩ := hrun
      obtain ⟨hafter, hanswer⟩ := runs_then.mp hrun
      exact Or.inr ⟨result, ⟨h₁, h₂, h₃, found, rest, rfl, hexists, hok, hstore, hafter⟩, hanswer⟩
  · intro hrun
    rcases hrun with ⟨⟨h₁, h₂, h₃, rfl, hexists, hmark, hdrain⟩, hanswer⟩ |
      ⟨result, ⟨h₁, h₂, h₃, found, rest, rfl, hexists, hok, hstore, hafter⟩, hanswer⟩
    · refine ⟨h₁, _, _, rfl, hexists, ?_⟩
      rw [if_pos (toOption_getD_false.mpr rfl), Prog.bind_assoc]
      simp only [Prog.bind_assoc]
      exact (hfound _).mpr ⟨h₂, h₃, rfl, hmark, hdrain, hanswer⟩
    · refine ⟨h₁, _, _, rfl, hexists, ?_⟩
      rw [if_neg (mt toOption_getD_false.mp hok), storeAbsent_eq, Prog.runs_bind]
      exact ⟨h₂, _, h₃, rfl, hstore, runs_then.mpr ⟨hafter, hanswer⟩⟩

/-- What a reader with a valid key does, and what it is answered: the probe misses,
or the object is fetched. -/
theorem retrieveArtifact_runs_iff (hvalid : ValidHash hash) :
    Prog.Runs (retrieveArtifact storage hash >>= intoResponse) h response ↔
      NotPresent storage hash h ∧ response = plainText 404 "The record was not found" ∨
      ∃ result, RetrieveReturned storage hash h result ∧ response = retrieveReply result := by
  have htrue : retrieveProbed storage hash true >>= intoResponse =
      storage.retrieve hash >>= fun result => .done (retrieveReply result) := by
    rw [retrieveProbed, if_pos rfl, Prog.bind_assoc]
    refine congrArg _ (funext ?_)
    intro result
    cases result <;> rfl
  rw [retrieveArtifact, show validateHash hash = .ok () from hvalid]
  dsimp only
  rw [Prog.bind_assoc, Prog.runs_bind]
  constructor
  · intro hrun
    obtain ⟨h₁, found, h', rfl, hpresent, hrun⟩ := hrun
    by_cases hok : found = .ok true
    · subst hok
      rw [toOption_getD_false.mpr rfl, htrue, Prog.runs_bind] at hrun
      obtain ⟨h₂, result, h₃, rfl, hretrieve, hend⟩ := hrun
      obtain ⟨rfl, hanswer⟩ := Prog.runs_done.mp hend
      rw [List.append_nil]
      exact Or.inr ⟨result, ⟨h₁, h₂, rfl, hpresent, hretrieve⟩, hanswer⟩
    · rw [Bool.eq_false_iff.mpr (mt toOption_getD_false.mp hok)] at hrun
      obtain ⟨rfl, hanswer⟩ := Prog.runs_done.mp hrun
      rw [List.append_nil]
      exact Or.inl ⟨⟨found, hok, hpresent⟩, hanswer⟩
  · intro hrun
    rcases hrun with ⟨⟨found, hok, hpresent⟩, hanswer⟩ |
      ⟨result, ⟨h₁, h₂, rfl, hpresent, hretrieve⟩, hanswer⟩
    · refine ⟨h, found, [], (List.append_nil h).symm, hpresent, ?_⟩
      rw [Bool.eq_false_iff.mpr (mt toOption_getD_false.mp hok), hanswer]
      exact .done _
    · refine ⟨h₁, _, h₂, rfl, hpresent, ?_⟩
      rw [toOption_getD_false.mpr rfl, htrue, Prog.runs_bind]
      exact ⟨h₂, result, [], (List.append_nil h₂).symm, hretrieve, by rw [hanswer]; exact .done _⟩

/-- What `store` returned decides the answer, since the answer is a function of the
history. -/
theorem StoreReturned.reply {result : Except StorageError Unit}
    (hs : StoreReturned storage hash body h result) (hvalid : ValidHash hash)
    (hrun : Prog.Runs (storeArtifact storage hash body >>= intoResponse) h response) :
    response = storeReply result :=
  hrun.unique ((storeArtifact_runs_iff hvalid).mpr (Or.inr ⟨result, hs, rfl⟩))

theorem ExistsFound.reply (hs : ExistsFound storage hash body h) (hvalid : ValidHash hash)
    (hrun : Prog.Runs (storeArtifact storage hash body >>= intoResponse) h response) :
    response = textReply 409 "Cannot override an existing record" :=
  hrun.unique ((storeArtifact_runs_iff hvalid).mpr (Or.inl ⟨hs, rfl⟩))

theorem RetrieveReturned.reply {result : Except StorageError ObjectBody}
    (hs : RetrieveReturned storage hash h result) (hvalid : ValidHash hash)
    (hrun : Prog.Runs (retrieveArtifact storage hash >>= intoResponse) h response) :
    response = retrieveReply result :=
  hrun.unique ((retrieveArtifact_runs_iff hvalid).mpr (Or.inr ⟨result, hs, rfl⟩))

end

/-! ## The layers around them -/

section

variable [RustChar] {storage : StorageProvider} {config : ServerConfig} {request : Request}
  {h : List TaskEvent} {response answer : Response} {hash : Hash}

/-- First 401, then 403 for what the read-only token may not do. -/
theorem role_eq : role config request =
    match access config request.authorization with
    | .none => .refused (plainText 401 "Unauthorized")
    | .read => if request.method.isRead then routeRole request
        else .refused (plainText 403 "Forbidden")
    | .readWrite => routeRole request := by
  unfold role access
  rw [show request.bearerToken = headerToken request.authorization from rfl]
  cases headerToken request.authorization with
  | none => rfl
  | some token =>
    cases hrw : isReadWrite config token <;> cases hro : isReadOnly config token <;>
      cases hread : request.method.isRead <;> simp [hrw, hro]

/-- Then 405. -/
theorem routeRole_other {name : String} (hmethod : request.method = .other name) :
    routeRole request = .refused methodNotAllowed := by
  rw [routeRole, hmethod]

/-- Then 400 for the key. -/
theorem routeRole_handled (hmethod : ∀ name, request.method ≠ .other name) :
    routeRole request =
      match pathHash request.segment with
      | none => .refused pathRejection
      | some hash =>
        if ValidHash hash then
          if request.method = .put then .writer hash else .reader hash
        else .refused (plainText 400 "Bad request") := by
  unfold routeRole
  cases hm : request.method with
  | other name => exact absurd hm (hmethod name)
  | _ => cases pathHash request.segment <;> simp

/-- What the task of a request in this role comes to. -/
def Answers (storage : StorageProvider) (body : Body) (h : List TaskEvent) (inner : Response) :
    Role → Prop
  | .writer hash => ValidHash hash ∧
      Prog.Runs (storeArtifact storage hash body >>= intoResponse) h inner
  | .reader hash => ValidHash hash ∧
      Prog.Runs (retrieveArtifact storage hash >>= intoResponse) h inner
  | .refused answer => inner = answer

/-- An invalid key is a bad request to a writer, drained body or not. -/
theorem storeArtifact_invalid {body : Body} (hinvalid : ¬ ValidHash hash)
    (hrun : Prog.Runs (storeArtifact storage hash body >>= intoResponse) h response) :
    response = plainText 400 "Bad request" := by
  rw [storeArtifact, validateHash_invalid hinvalid] at hrun
  dsimp only at hrun
  rw [Prog.bind_assoc] at hrun
  exact (runs_then.mp hrun).2

theorem retrieveArtifact_invalid (hinvalid : ¬ ValidHash hash)
    (hrun : Prog.Runs (retrieveArtifact storage hash >>= intoResponse) h response) :
    response = plainText 400 "Bad request" := by
  rw [retrieveArtifact, validateHash_invalid hinvalid] at hrun
  exact (Prog.runs_done.mp hrun).2

/-- Behind the middleware a request does what its role says. -/
theorem cacheRoutes_runs (hrun : Prog.Runs (cacheRoutes storage request) h response) :
    Answers storage request.body h response (routeRole request) := by
  have hread : ∀ hash, Prog.Runs (retrieveArtifact storage hash >>= intoResponse) h response →
      Answers storage request.body h response
        (if ValidHash hash then .reader hash else .refused (plainText 400 "Bad request")) := by
    intro hash hrun
    split
    next hvalid => exact ⟨hvalid, hrun⟩
    next hinvalid => exact retrieveArtifact_invalid hinvalid hrun
  unfold cacheRoutes at hrun
  unfold routeRole
  cases hpath : pathHash request.segment with
  | none =>
    -- no handler runs, whatever the method
    rw [hpath] at hrun
    cases hmethod : request.method <;> rw [hmethod] at hrun <;> exact (Prog.runs_done.mp hrun).2
  | some hash =>
    rw [hpath] at hrun
    cases hmethod : request.method with
    | other name =>
      rw [hmethod] at hrun
      exact (Prog.runs_done.mp hrun).2
    | put =>
      rw [hmethod] at hrun
      dsimp only
      split
      next hvalid => exact ⟨hvalid, hrun⟩
      next hinvalid => exact storeArtifact_invalid hinvalid hrun
    | get =>
      rw [hmethod] at hrun
      exact hread hash hrun
    | head =>
      rw [hmethod] at hrun
      exact hread hash hrun

/-- A request does what its role says, and the last layer only forces the connection
closed. -/
theorem serve_runs (hrun : Prog.Runs (serve storage config request) h response) :
    ∃ inner, response = finalize request inner ∧
      Answers storage request.body h inner (role config request) := by
  have hgrants : Grants config request.authorization (access config request.authorization) :=
    grants_access
  unfold serve at hrun
  rw [role_eq]
  have hpasses : Passes config request → ∃ inner, response = finalize request inner ∧
      Answers storage request.body h inner (routeRole request) := by
    intro hp
    rw [hp, Prog.bind_assoc, Prog.runs_bind] at hrun
    obtain ⟨h₁, inner, h₂, rfl, hroute, hend⟩ := hrun
    obtain ⟨rfl, hanswer⟩ := Prog.runs_done.mp hend
    rw [List.append_nil]
    exact ⟨inner, hanswer, cacheRoutes_runs hroute⟩
  cases haccess : access config request.authorization with
  | none =>
    rw [haccess] at hgrants
    rw [hgrants request rfl] at hrun
    exact ⟨_, (Prog.runs_done.mp hrun).2, rfl⟩
  | read =>
    rw [haccess] at hgrants
    have hr := hgrants request rfl
    dsimp only
    split
    next hread =>
      rw [if_pos hread] at hr
      exact hpasses hr
    next hread =>
      rw [if_neg hread] at hr
      rw [hr, Prog.bind_assoc] at hrun
      exact ⟨_, (runs_then.mp hrun).2, rfl⟩
  | readWrite =>
    rw [haccess] at hgrants
    exact hpasses (hgrants request rfl)

end

/-! ## The statuses -/

section

variable {result : Except StorageError Unit} {got : Except StorageError ObjectBody}

theorem storeReply_status_ok : (storeReply result).status = 200 ↔ result = .ok () := by
  rcases result with e | u
  · cases e <;> simp [storeReply, plainText]
  · simp [storeReply, textReply]

theorem storeReply_status_abort :
    (storeReply result).status = 400 ↔ result = .error .clientAbort := by
  rcases result with e | u
  · cases e <;> simp [storeReply, plainText]
  · simp [storeReply, textReply]

theorem storeReply_status_declined :
    (storeReply result).status = 403 ↔ ∃ e, e ≠ .clientAbort ∧ result = .error e := by
  rcases result with e | u
  · cases e <;> simp [storeReply, plainText]
  · simp [storeReply, textReply]

/-- `store` is never answered 409, which is for an object that was found. -/
theorem storeReply_ne_conflict : (storeReply result).status ≠ 409 := by
  rcases result with e | u
  · cases e <;> simp [storeReply, plainText]
  · simp [storeReply, textReply]

theorem retrieveReply_status_ok : (retrieveReply got).status = 200 ↔ ∃ object, got = .ok object := by
  cases got <;> simp [retrieveReply, plainText]

end

section

variable [RustChar] {storage : StorageProvider} {config : ServerConfig} {request : Request}
  {h : List TaskEvent} {response answer : Response} {hash : Hash}

/-- The request is let in and its method has a handler. -/
def Routed (config : ServerConfig) (request : Request) : Prop :=
  access config request.authorization = .readWrite ∧ (∀ name, request.method ≠ .other name) ∨
    access config request.authorization = .read ∧ request.method.isRead = true

/-- The answers of the cache route. -/
structure Honest (storage : StorageProvider) (config : ServerConfig) (request : Request)
    (h : List TaskEvent) (response : Response) : Prop where
  /-- Never a 5xx. -/
  statuses : response.status ∈ [200, 400, 401, 403, 404, 405, 409]
  stored : request.method = .put → (response.status = 200 ↔
    ∃ hash, role config request = .writer hash ∧
      StoreReturned storage hash request.body h (.ok ()))
  conflict : request.method = .put → (response.status = 409 ↔
    ∃ hash, role config request = .writer hash ∧ ExistsFound storage hash request.body h)
  aborted : ∀ hash, role config request = .writer hash → (response.status = 400 ↔
    StoreReturned storage hash request.body h (.error .clientAbort))
  declined : ∀ hash, role config request = .writer hash → (response.status = 403 ↔
    ∃ e, e ≠ .clientAbort ∧ StoreReturned storage hash request.body h (.error e))
  /-- A writer has found the object, or it has stored, a failed look included. -/
  settled : ∀ hash, role config request = .writer hash →
    ExistsFound storage hash request.body h ∨
      ∃ result, StoreReturned storage hash request.body h result
  hit : request.method.isRead = true → (response.status = 200 ↔
    ∃ hash object, role config request = .reader hash ∧
      RetrieveReturned storage hash h (.ok object))
  missed : ∀ hash, role config request = .reader hash →
    response.status = 200 ∨ response.status = 404
  unauthorized : access config request.authorization = .none → response.status = 401
  forbidden : access config request.authorization = .read → request.method.isRead = false →
    response.status = 403
  notAllowed : access config request.authorization = .readWrite →
    ∀ name, request.method = .other name → response.status = 405
  invalidKey : Routed config request →
    (∀ hash, pathHash request.segment = some hash → ¬ ValidHash hash) → response.status = 400
  validKey : Routed config request → ∀ hash, pathHash request.segment = some hash →
    ValidHash hash →
      role config request = if request.method = .put then .writer hash else .reader hash
  plain : response.status = 401 ∨ response.status = 403 → request.method ≠ .head →
    response.contentType = some "text/plain" ∧ ∃ message, message ≠ "" ∧
      response.body = .text message

/-- The answers of requests that are turned away. -/
theorem refused_cases (hrole : role config request = .refused answer) :
    answer = plainText 401 "Unauthorized" ∨ answer = plainText 403 "Forbidden" ∨
      answer = methodNotAllowed ∨ answer = pathRejection ∨
      answer = plainText 400 "Bad request" := by
  have hroute : routeRole request = .refused answer → answer = methodNotAllowed ∨
      answer = pathRejection ∨ answer = plainText 400 "Bad request" := by
    intro hroute
    unfold routeRole at hroute
    split at hroute
    · exact Or.inl (Role.refused.inj hroute).symm
    · exact Or.inr (Or.inl (Role.refused.inj hroute).symm)
    all_goals
      split at hroute
      · cases hroute
      · exact Or.inr (Or.inr (Role.refused.inj hroute).symm)
  rw [role_eq] at hrole
  split at hrole
  · exact Or.inl (Role.refused.inj hrole).symm
  · split at hrole
    · exact Or.inr (Or.inr (hroute hrole))
    · exact Or.inr (Or.inl (Role.refused.inj hrole).symm)
  · exact Or.inr (Or.inr (hroute hrole))

/-- Who is let in has the role the route gives. -/
theorem role_routed_eq (hrouted : Routed config request) :
    role config request = routeRole request := by
  rw [role_eq]
  rcases hrouted with ⟨ha, -⟩ | ⟨ha, hread⟩
  · rw [ha]
  · rw [ha]
    exact if_pos hread

omit [RustChar] in
/-- Who is let in with a handler has a method of the route. -/
theorem method_of_routed (hrouted : Routed config request) :
    ∀ name, request.method ≠ .other name := by
  rcases hrouted with ⟨-, hm⟩ | ⟨-, hread⟩
  · exact hm
  · intro name hm
    rw [hm] at hread
    cases hread

/-- What a writer is answered, and why. -/
theorem Answers.writer {body : Body} {inner : Response}
    (ha : Answers storage body h inner (.writer hash)) :
    (inner.status = 200 ↔ StoreReturned storage hash body h (.ok ())) ∧
    (inner.status = 409 ↔ ExistsFound storage hash body h) ∧
    (inner.status = 400 ↔ StoreReturned storage hash body h (.error .clientAbort)) ∧
    (inner.status = 403 ↔ ∃ e, e ≠ .clientAbort ∧ StoreReturned storage hash body h (.error e)) := by
  obtain ⟨hvalid, hrun⟩ := ha
  rcases (storeArtifact_runs_iff hvalid).mp hrun with ⟨hfound, rfl⟩ | ⟨result, hstored, rfl⟩
  · -- a found object is never stored: the history decides
    have hno : ∀ result, ¬ StoreReturned storage hash body h result := by
      intro result hs
      have heq := congrArg Response.status (hs.reply hvalid hrun)
      exact storeReply_ne_conflict heq.symm
    refine ⟨iff_of_false (by decide) (hno _), iff_of_true rfl hfound, iff_of_false (by decide) (hno _),
      iff_of_false (by decide) ?_⟩
    intro hex
    obtain ⟨e, -, hs⟩ := hex
    exact hno _ hs
  · have hone : ∀ result', StoreReturned storage hash body h result' →
        storeReply result = storeReply result' := fun _ hs => hs.reply hvalid hrun
    refine ⟨?_, ?_, ?_, ?_⟩
    · constructor
      · intro hstatus
        rw [storeReply_status_ok] at hstatus
        exact hstatus ▸ hstored
      · intro hs
        rw [hone _ hs]
        rfl
    · refine iff_of_false storeReply_ne_conflict ?_
      intro hfound
      exact storeReply_ne_conflict (congrArg Response.status (hfound.reply hvalid hrun))
    · constructor
      · intro hstatus
        rw [storeReply_status_abort] at hstatus
        exact hstatus ▸ hstored
      · intro hs
        rw [hone _ hs]
        rfl
    · constructor
      · intro hstatus
        obtain ⟨e, he, rfl⟩ := storeReply_status_declined.mp hstatus
        exact ⟨e, he, hstored⟩
      · intro hex
        obtain ⟨e, he, hs⟩ := hex
        rw [hone _ hs]
        exact storeReply_status_declined.mpr ⟨e, he, rfl⟩

/-- A writer has found the object or it has stored. -/
theorem Answers.settled {body : Body} {inner : Response}
    (ha : Answers storage body h inner (.writer hash)) :
    ExistsFound storage hash body h ∨ ∃ result, StoreReturned storage hash body h result := by
  obtain ⟨hvalid, hrun⟩ := ha
  rcases (storeArtifact_runs_iff hvalid).mp hrun with ⟨hfound, -⟩ | ⟨result, hstored, -⟩
  · exact Or.inl hfound
  · exact Or.inr ⟨result, hstored⟩

/-- What a reader is answered, and why. -/
theorem Answers.reader {body : Body} {inner : Response}
    (ha : Answers storage body h inner (.reader hash)) :
    (inner.status = 200 ↔ ∃ object, RetrieveReturned storage hash h (.ok object)) ∧
      (inner.status = 200 ∨ inner.status = 404) := by
  obtain ⟨hvalid, hrun⟩ := ha
  rcases (retrieveArtifact_runs_iff hvalid).mp hrun with ⟨hmiss, rfl⟩ | ⟨got, hretrieved, rfl⟩
  · refine ⟨iff_of_false (by decide) ?_, Or.inr rfl⟩
    intro hex
    obtain ⟨object, hs⟩ := hex
    have heq := congrArg Response.status (hs.reply hvalid hrun)
    cases heq
  · refine ⟨?_, ?_⟩
    · constructor
      · intro hstatus
        obtain ⟨object, rfl⟩ := retrieveReply_status_ok.mp hstatus
        exact ⟨object, hretrieved⟩
      · intro hex
        obtain ⟨object, hs⟩ := hex
        rw [hs.reply hvalid hrun]
        rfl
    · cases got with
      | ok object => exact Or.inl rfl
      | error e => exact Or.inr rfl

/-- A response is one of its role's. -/
theorem Answers.statuses {body : Body} {inner : Response}
    (ha : Answers storage body h inner (role config request)) :
    inner.status ∈ [200, 400, 401, 403, 404, 405, 409] := by
  cases hrole : role config request with
  | writer hash =>
    rw [hrole] at ha
    obtain ⟨hvalid, hrun⟩ := ha
    rcases (storeArtifact_runs_iff hvalid).mp hrun with ⟨-, rfl⟩ | ⟨result, -, rfl⟩
    · decide
    · rcases result with e | u
      · cases e <;> decide
      · cases u
        decide
  | reader hash =>
    rw [hrole] at ha
    rcases ha.reader.2 with hstatus | hstatus <;> rw [hstatus] <;> decide
  | refused answer =>
    rw [hrole] at ha
    rw [show inner = answer from ha]
    rcases refused_cases hrole with rfl | rfl | rfl | rfl | rfl <;> decide

/-- A 401 or 403 says why. -/
theorem Answers.plain {body : Body} {inner : Response}
    (ha : Answers storage body h inner (role config request))
    (hstatus : inner.status = 401 ∨ inner.status = 403) :
    inner.contentType = some "text/plain" ∧ ∃ message, message ≠ "" ∧
      inner.body = .text message := by
  cases hrole : role config request with
  | writer hash =>
    rw [hrole] at ha
    obtain ⟨hvalid, hrun⟩ := ha
    rcases (storeArtifact_runs_iff hvalid).mp hrun with ⟨-, rfl⟩ | ⟨result, -, rfl⟩
    · rcases hstatus with hstatus | hstatus <;> cases hstatus
    · rcases result with e | u
      · cases e with
        | clientAbort => rcases hstatus with hstatus | hstatus <;> cases hstatus
        | _ => exact ⟨rfl, _, by decide, rfl⟩
      · rcases hstatus with hstatus | hstatus <;> cases hstatus
  | reader hash =>
    rw [hrole] at ha
    rcases ha.reader.2 with hother | hother <;> rw [hother] at hstatus <;>
      rcases hstatus with hstatus | hstatus <;> cases hstatus
  | refused answer =>
    rw [hrole] at ha
    rw [show inner = answer from ha] at hstatus ⊢
    rcases refused_cases hrole with rfl | rfl | rfl | rfl | rfl
    · exact ⟨rfl, _, by decide, rfl⟩
    · exact ⟨rfl, _, by decide, rfl⟩
    all_goals rcases hstatus with hstatus | hstatus <;> cases hstatus

/-- Who is turned away is answered neither 200 nor 409. -/
theorem refused_status (hrole : role config request = .refused answer) :
    answer.status ≠ 200 ∧ answer.status ≠ 409 := by
  rcases refused_cases hrole with rfl | rfl | rfl | rfl | rfl <;> decide

/-- Who is turned away gets the answer of its refusal. -/
theorem Answers.refused {body : Body} {inner : Response}
    (ha : Answers storage body h inner (role config request))
    (hrole : role config request = .refused answer) : inner = answer := by
  rw [hrole] at ha
  exact ha

/-- A status of none that is turned away: a PUT gets it of its handler. -/
theorem Answers.put_iff {body : Body} {inner : Response} {status : Nat} {P : Hash → Prop}
    (ha : Answers storage body h inner (role config request)) (hmethod : request.method = .put)
    (hrefused : ∀ answer, role config request = .refused answer → answer.status ≠ status)
    (hwriter : ∀ hash, role config request = .writer hash → (inner.status = status ↔ P hash)) :
    inner.status = status ↔ ∃ hash, role config request = .writer hash ∧ P hash := by
  cases hrole : role config request with
  | writer hash => simpa using hwriter hash hrole
  | reader hash =>
    have hread := (role_reader hrole).1
    rw [hmethod] at hread
    cases hread
  | refused answer =>
    rw [ha.refused hrole]
    simpa using hrefused answer hrole

/-- A 200 to a GET or a HEAD is of its handler. -/
theorem Answers.read_iff {body : Body} {inner : Response}
    (ha : Answers storage body h inner (role config request))
    (hread : request.method.isRead = true) :
    inner.status = 200 ↔ ∃ hash object, role config request = .reader hash ∧
      RetrieveReturned storage hash h (.ok object) := by
  cases hrole : role config request with
  | writer hash =>
    rw [(role_writer hrole).1] at hread
    cases hread
  | reader hash =>
    rw [hrole] at ha
    simpa using ha.reader.1
  | refused answer =>
    rw [ha.refused hrole]
    simpa using (refused_status hrole).1

/-! ## Who is turned away -/

/-- No access is a 401, before anything else is looked at. -/
theorem role_unauthorized (haccess : access config request.authorization = .none) :
    role config request = .refused (plainText 401 "Unauthorized") := by
  rw [role_eq, haccess]

theorem role_forbidden (haccess : access config request.authorization = .read)
    (hread : request.method.isRead = false) :
    role config request = .refused (plainText 403 "Forbidden") := by
  rw [role_eq, haccess]
  simp [hread]

/-- A method without a handler is a 405, for whoever may write. -/
theorem role_notAllowed {name : String}
    (haccess : access config request.authorization = .readWrite)
    (hmethod : request.method = .other name) :
    role config request = .refused methodNotAllowed := by
  rw [role_eq, haccess]
  exact routeRole_other hmethod

/-- A key that is no valid hash, or no text at all, is a bad request. -/
theorem role_invalidKey (hrouted : Routed config request)
    (hinvalid : ∀ hash, pathHash request.segment = some hash → ¬ ValidHash hash) :
    ∃ answer, answer.status = 400 ∧ role config request = .refused answer := by
  have hrole := (role_routed_eq hrouted).trans (routeRole_handled (method_of_routed hrouted))
  cases hpath : pathHash request.segment with
  | none =>
    rw [hpath] at hrole
    exact ⟨_, rfl, hrole⟩
  | some hash =>
    rw [hpath] at hrole
    dsimp only at hrole
    rw [if_neg (hinvalid hash hpath)] at hrole
    exact ⟨_, rfl, hrole⟩

/-- **Honest answers.** Whatever the storage provider returns, the answer to a
request says what became of it, and is never a 5xx. -/
theorem honest_answers (hrun : Prog.Runs (serve storage config request) h response) :
    Honest storage config request h response := by
  obtain ⟨inner, rfl, ha⟩ := serve_runs hrun
  have hwriter : ∀ {hash}, role config request = .writer hash →
      Answers storage request.body h inner (.writer hash) := fun hrole => hrole ▸ ha
  have hreader : ∀ {hash}, role config request = .reader hash →
      Answers storage request.body h inner (.reader hash) := fun hrole => hrole ▸ ha
  constructor
  · rw [finalize_status]
    exact ha.statuses
  · intro hmethod
    rw [finalize_status]
    exact ha.put_iff hmethod (fun _ hrole => (refused_status hrole).1)
      (fun _ hrole => (hwriter hrole).writer.1)
  · intro hmethod
    rw [finalize_status]
    exact ha.put_iff hmethod (fun _ hrole => (refused_status hrole).2)
      (fun _ hrole => (hwriter hrole).writer.2.1)
  · intro hash hrole
    rw [finalize_status]
    exact (hwriter hrole).writer.2.2.1
  · intro hash hrole
    rw [finalize_status]
    exact (hwriter hrole).writer.2.2.2
  · intro hash hrole
    exact (hwriter hrole).settled
  · intro hread
    rw [finalize_status]
    exact ha.read_iff hread
  · intro hash hrole
    rw [finalize_status]
    exact (hreader hrole).reader.2
  · intro haccess
    rw [finalize_status, ha.refused (role_unauthorized haccess)]
    rfl
  · intro haccess hread
    rw [finalize_status, ha.refused (role_forbidden haccess hread)]
    rfl
  · intro haccess name hmethod
    rw [finalize_status, ha.refused (role_notAllowed haccess hmethod)]
    rfl
  · intro hrouted hinvalid
    obtain ⟨answer, hstatus, hrole⟩ := role_invalidKey hrouted hinvalid
    rw [finalize_status, ha.refused hrole]
    exact hstatus
  · intro hrouted hash hpath hvalid
    rw [role_routed_eq hrouted, routeRole_handled (method_of_routed hrouted), hpath]
    exact if_pos hvalid
  · intro hstatus hmethod
    rw [finalize_status] at hstatus
    have hplain := ha.plain hstatus
    -- only the body of an answer to HEAD is cut off
    unfold finalize
    rw [if_neg hmethod]
    exact hplain

/-- A storage that can write, but not read. -/
def writeOnlyStorage : StorageProvider where
  existsKey _ := pure (.error .operationFailed)
  store _ body := pure (.ok (), body)
  retrieve _ := pure (.error .operationFailed)

/-- `PUT /v1/cache/abc` with the service access token. -/
def smallPut : Request where
  method := .put
  segment := .abc
  authorization := bearer "rw"
  body := .eof 0

omit [RustChar] in
/-- A failed `exists` counts as absent. -/
theorem writeOnlyStorage_honest : ∃ h response,
    Prog.Runs (@serve asciiChars writeOnlyStorage ⟨3000, "rw", some "ro"⟩ smallPut) h response ∧
      response.status = 200 ∧
      @Honest asciiChars writeOnlyStorage ⟨3000, "rw", some "ro"⟩ smallPut h response := by
  have hrun : Prog.Runs (@serve asciiChars writeOnlyStorage ⟨3000, "rw", some "ro"⟩ smallPut)
      [⟨.now, 0⟩, ⟨.markPresent "abc" 0, ()⟩] (textReply 200 "").close := .act (.act (.done _))
  exact ⟨_, _, hrun, rfl, @honest_answers asciiChars _ _ _ _ _ hrun⟩

end

end NxCacheServer.Server
