import NxCacheServer.Lib.WriteOnce
import NxCacheServer.Server.Access
import NxCacheServer.Server.Answers
import NxCacheServer.System.Sessions

/-!
# What a server is for

Its purpose, without S3, cache or time: a map from keys to bytes in which a key
is bound once. `Env.handle` is how such a map answers a request, by the rights
of its client, its method, its key and its body; `Spec` goes through the
requests and deletions of a run in their order.

The storage is not in it: an `Answer` has a status and the bytes of the object, if it
carries one, and an outcome is an answer with the map after it. Rights and keys are
decided as in the source, since they are what the map is behind.
-/

namespace NxCacheServer.System

open NxCacheServer.Domain NxCacheServer.Infra NxCacheServer.Server NxCacheServer.Lib

/-- What a client sees of a response: its status, and the object it carries if
it carries one to the end. -/
structure Answer where
  status : Nat
  object : Option Bytes
  deriving DecidableEq, Repr

end NxCacheServer.System

namespace NxCacheServer.Server

open NxCacheServer.System

/-- The object a response body carries to its end. -/
def ResponseBody.whole : ResponseBody → Option Domain.Bytes
  | .object ⟨bytes, none⟩ => some bytes
  | _ => none

/-- What the map has a say in: the status and the object. -/
def Response.answer (response : Response) : Answer := ⟨response.status, response.body.whole⟩

/-- What the router does to every response shows in the body of a `HEAD` only. -/
theorem answer_finalize (request : Request) (response : Response) :
    (finalize request response).answer =
      ⟨response.status, if request.method = .head then none else response.body.whole⟩ := by
  unfold finalize
  split
  next => rfl
  next => rfl

end NxCacheServer.Server

namespace NxCacheServer.System

open NxCacheServer.Domain NxCacheServer.Infra NxCacheServer.Server NxCacheServer.Lib

section

variable [RustChar] (env : Env) (r : ReqId)

/-- The key `r` is about, or the status it is turned away with: an unknown
token, a read-only token on anything but a GET or HEAD, a method without a
handler, an invalid key. -/
def Env.admits : Except Nat Hash :=
  match access (env.config (env.inst r)) (env.request r).authorization,
      (env.request r).method.isRead with
  | .none, _ => .error 401
  | .read, false => .error 403
  | _, _ =>
    match (env.request r).method, pathHash (env.request r).segment with
    | .other _, _ => .error 405
    | _, none => .error 400
    | _, some key => if ValidHash key then .ok key else .error 400

/-- What the map answers to `r`, and the map after it. -/
def Env.handle (map : WriteOnce Hash Bytes) : Answer × WriteOnce Hash Bytes :=
  match env.admits r with
  | .error status => (⟨status, none⟩, map)
  | .ok key =>
    match (env.request r).method, map key with
    | .put, some _ => (⟨409, none⟩, map)
    | .put, none =>
      if (env.body r).complete then (⟨200, none⟩, map.put key (env.body r).bytes)
      else (⟨400, none⟩, map)
    | .head, some _ => (⟨200, none⟩, map)
    | _, some bytes => (⟨200, some bytes⟩, map)
    | _, none => (⟨404, none⟩, map)

end

/-- The map, and what each request that has come was answered. -/
structure Spec where
  map : WriteOnce Hash Bytes
  answers : ReqId → Option Answer

namespace Spec

variable [RustChar]

/-- A request is handled at once when it comes; nothing else but a deletion
matters. -/
def step (env : Env) (spec : Spec) : Label → Spec
  | .arrive r =>
    ⟨(env.handle r spec.map).2, Function.update spec.answers r (some (env.handle r spec.map).1)⟩
  | .delete key => { spec with map := spec.map.delete key }
  | _ => spec

/-- The map and its answers along a run. -/
def run (env : Env) (objects : Hash → Option Bytes) (ls : List Label) : Spec :=
  ls.foldl (step env) ⟨objects, fun _ => none⟩

theorem run_snoc {env : Env} {objects : Hash → Option Bytes} {ls : List Label} {l : Label} :
    run env objects (ls ++ [l]) = (run env objects ls).step env l :=
  List.foldl_append

end Spec

/-! ## Roles and admission -/

section

variable [RustChar] {env : Env} {r : ReqId} {key : Hash} {map : WriteOnce Hash Bytes}

/-- How a role shows in the admission of its request. -/
def Admitted (admitted : Except Nat Hash) : Role → Prop
  | .writer key => admitted = .ok key
  | .reader key => admitted = .ok key
  | .refused response => admitted = .error response.status ∧ response.body.whole = none

/-- The map is told who is let in, and with which key. -/
theorem Env.admitted (env : Env) (r : ReqId) : Admitted (env.admits r) (env.role r) := by
  have hroute : Admitted
      (match (env.request r).method, pathHash (env.request r).segment with
        | .other _, _ => .error 405
        | _, none => .error 400
        | _, some key => if ValidHash key then .ok key else .error 400)
      (routeRole (env.request r)) := by
    unfold routeRole
    cases (env.request r).method <;> cases pathHash (env.request r).segment with
    | none => exact ⟨rfl, rfl⟩
    | some key =>
      first
      | exact ⟨rfl, rfl⟩
      | by_cases hvalid : ValidHash key
        · simp only [if_pos hvalid]
          rfl
        · simp only [if_neg hvalid]
          exact ⟨rfl, rfl⟩
  unfold Env.role Env.admits
  rw [Server.role_eq]
  cases access (env.config (env.inst r)) (env.request r).authorization with
  | none => exact ⟨rfl, rfl⟩
  | readWrite => exact hroute
  | read =>
    cases (env.request r).method.isRead with
    | true => exact hroute
    | false => exact ⟨rfl, rfl⟩

/-! ## Handling, by roles -/

theorem Env.handle_refused {response : Response} (h : env.role r = .refused response) :
    env.handle r map = (⟨response.status, none⟩, map) := by
  have hadmits := env.admitted r
  rw [h] at hadmits
  rw [Env.handle, hadmits.1]

theorem Env.body_refused {response : Response} (h : env.role r = .refused response) :
    response.body.whole = none := by
  have hadmits := env.admitted r
  rw [h] at hadmits
  exact hadmits.2

theorem Env.handle_found {bytes : Bytes} (h : env.role r = .reader key)
    (hbound : map key = some bytes) :
    env.handle r map = (⟨200, if (env.request r).method = .head then none else some bytes⟩, map) := by
  have hadmits := env.admitted r
  rw [h] at hadmits
  rw [Env.handle, show env.admits r = .ok key from hadmits]
  have hread := (role_reader h).1
  cases hmethod : (env.request r).method with
  | get => simp [hbound]
  | head => simp [hbound]
  | _ =>
    rw [hmethod] at hread
    cases hread

theorem Env.handle_missing (h : env.role r = .reader key) (hnone : map key = none) :
    env.handle r map = (⟨404, none⟩, map) := by
  have hadmits := env.admitted r
  rw [h] at hadmits
  rw [Env.handle, show env.admits r = .ok key from hadmits]
  have hread := (role_reader h).1
  cases hmethod : (env.request r).method with
  | get => simp [hnone]
  | head => simp [hnone]
  | _ =>
    rw [hmethod] at hread
    cases hread

/-- A writer binds a key that is not bound, if its body is complete. -/
theorem Env.handle_put (h : env.role r = .writer key) : env.handle r map =
    if (map key).isSome then (⟨409, none⟩, map)
    else if (env.body r).complete then (⟨200, none⟩, map.put key (env.body r).bytes)
    else (⟨400, none⟩, map) := by
  have hadmits := env.admitted r
  rw [h] at hadmits
  rw [Env.handle, show env.admits r = .ok key from hadmits, (role_writer h).1]
  cases hbound : map key <;> simp [hbound]

end

end NxCacheServer.System
