import NxCacheServer.Infra.Parts
import NxCacheServer.Server.Router

/-!
# What serving a request may do

Seen from the bucket and the cache, a request is one of three things (`Role`):
a *writer* of a key, a *reader* of a key, or *refused*, which touches neither.
`Session` is what a task has learnt so far, a function of its history, and
`Session.Allows` is what it may do next. `serve_session` says that the code of
the router keeps to that, and with which response it ends.

A session is less than the history: which replies a request got, which upload it
opened and which parts were acknowledged, which slot it has and what it found there.
The invariants of a running system are about sessions, so a change in a handler is a
change to the proof of `serve_session`, and to nothing above it as long as what a
request may do stays what it is.
-/

namespace NxCacheServer.Server

open NxCacheServer.Domain NxCacheServer.Infra NxCacheServer.Lib

/-- The parts `store` uploads of a body that does not fit in one. -/
def uploadParts (body : Body) : List Bytes := body.partsFrom multipartPartSize []

/-- What a request is to the bucket and the cache. -/
inductive Role
  /-- A PUT of a valid key with the service access token. -/
  | writer (hash : Hash)
  /-- A GET or HEAD of a valid key with either token. -/
  | reader (hash : Hash)
  /-- Anything else, and how it is answered. -/
  | refused (response : Response)
  deriving DecidableEq, Repr

/-- The key a role is about. -/
def Role.key : Role → Option Hash
  | .writer hash => some hash
  | .reader hash => some hash
  | .refused _ => none

section

variable [RustChar]

/-- The role of an authorised request. -/
def routeRole (request : Request) : Role :=
  match request.method, pathHash request.segment with
  | .other _, _ => .refused methodNotAllowed
  | _, none => .refused pathRejection
  | .put, some hash =>
    if ValidHash hash then .writer hash else .refused (plainText 400 "Bad request")
  | .get, some hash =>
    if ValidHash hash then .reader hash else .refused (plainText 400 "Bad request")
  | .head, some hash =>
    if ValidHash hash then .reader hash else .refused (plainText 400 "Bad request")

/-- The role of a request on an instance. -/
def role (config : ServerConfig) (request : Request) : Role :=
  match request.bearerToken with
  | none => .refused (plainText 401 "Unauthorized")
  | some token =>
    if !isReadWrite config token && !isReadOnly config token then
      .refused (plainText 401 "Unauthorized")
    else if !isReadWrite config token && !request.method.isRead then
      .refused (plainText 403 "Forbidden")
    else routeRole request

variable {config : ServerConfig} {request : Request} {hash : Hash}

theorem routeRole_writer (h : routeRole request = .writer hash) :
    request.method = .put ∧ pathHash request.segment = some hash ∧ ValidHash hash := by
  unfold routeRole at h
  split at h
  next => cases h
  next => cases h
  next hash' hmethod hpath =>
    split at h
    next hvalid =>
      cases h
      exact ⟨hmethod, hpath, hvalid⟩
    next => cases h
  next => split at h <;> cases h
  next => split at h <;> cases h

/-- A reader is a GET or a HEAD with a valid key. -/
theorem routeRole_reader (h : routeRole request = .reader hash) :
    request.method.isRead = true ∧ pathHash request.segment = some hash ∧ ValidHash hash := by
  unfold routeRole at h
  split at h
  next => cases h
  next => cases h
  next => split at h <;> cases h
  next hash' hmethod hpath =>
    split at h
    next hvalid =>
      cases h
      exact ⟨by rw [hmethod]; rfl, hpath, hvalid⟩
    next => cases h
  next hash' hmethod hpath =>
    split at h
    next hvalid =>
      cases h
      exact ⟨by rw [hmethod]; rfl, hpath, hvalid⟩
    next => cases h

/-- A request that is not turned away is routed. -/
theorem role_routed (h : role config request = .writer hash ∨ role config request = .reader hash) :
    ∃ token, request.bearerToken = some token ∧ role config request = routeRole request ∧
      (isReadWrite config token = true ∨
        isReadOnly config token = true ∧ request.method.isRead = true) := by
  unfold role at h ⊢
  split at h
  next => rcases h with h | h <;> cases h
  next token htoken =>
    split at h
    next => rcases h with h | h <;> cases h
    next hknown =>
      split at h
      next => rcases h with h | h <;> cases h
      next hread =>
        refine ⟨token, htoken, ?_, ?_⟩
        · simp only [if_neg hknown, if_neg hread]
        · cases hrw : isReadWrite config token with
          | true => exact Or.inl rfl
          | false => exact Or.inr ⟨by simpa [hrw] using hknown, by simpa [hrw] using hread⟩

/-- A writer's request carries the service access token, byte for byte. -/
theorem role_writer (h : role config request = .writer hash) :
    request.method = .put ∧ pathHash request.segment = some hash ∧ ValidHash hash ∧
      request.bearerToken = some (tokenBytes config.serviceAccessToken) := by
  obtain ⟨token, htoken, hroute, hrw⟩ := role_routed (Or.inl h)
  obtain ⟨hmethod, hpath, hvalid⟩ := routeRole_writer (hroute.symm.trans h)
  refine ⟨hmethod, hpath, hvalid, ?_⟩
  rcases hrw with hrw | hread
  · have heq : token = tokenBytes config.serviceAccessToken := by
      simpa [isReadWrite, ctEq] using hrw
    rw [htoken, heq]
  · rw [hmethod] at hread
    cases hread.2

/-- Behind the middleware a reader also has one of the two tokens. -/
theorem role_reader (h : role config request = .reader hash) :
    request.method.isRead = true ∧ pathHash request.segment = some hash ∧ ValidHash hash ∧
      ∃ token, request.bearerToken = some token ∧
        (isReadWrite config token = true ∨ isReadOnly config token = true) := by
  obtain ⟨token, htoken, hroute, hknown⟩ := role_routed (Or.inr h)
  obtain ⟨hread, hpath, hvalid⟩ := routeRole_reader (hroute.symm.trans h)
  exact ⟨hread, hpath, hvalid, token, htoken, hknown.imp_right And.left⟩

end

/-- What a task has learnt along its history. -/
structure Session where
  /-- The reply to its own `HeadObject`. -/
  probe : Option (Except HeadError Unit)
  /-- The body has been read to its end. -/
  ended : Bool
  upload : Option UploadId
  /-- The parts S3 has acknowledged with an ETag. -/
  listed : List CompletedPart
  /-- `PutObject` or `CompleteMultipartUpload` has succeeded. -/
  wrote : Bool
  /-- Some other request of `store` has failed. -/
  failed : Bool
  aborted : Bool
  stamp : Option Instant
  slot : Option SlotId
  /-- It holds the permit of its slot's cell. -/
  permit : Bool
  /-- The value it found in its slot's cell. -/
  shared : Option Bool
  got : Option (Except GetError ObjectBody)
  marked : Bool

namespace Session

/-- Nothing is known yet. -/
def start : Session where
  probe := none
  ended := false
  upload := none
  listed := []
  wrote := false
  failed := false
  aborted := false
  stamp := none
  slot := none
  permit := false
  shared := none
  got := none
  marked := false

variable (g : Session)

/-- What the answer to an action adds. -/
def learn : (e : Act) → e.Resp → Session
  | .s3 (.headObject _), reply => { g with probe := some reply }
  | .s3 (.getObject _), reply => { g with got := some reply }
  | .s3 (.putObject _ _), Except.ok () => { g with wrote := true }
  | .s3 (.putObject _ _), Except.error _ => { g with failed := true }
  | .s3 (.createMultipartUpload _), Except.ok (some id) => { g with upload := some id }
  | .s3 (.createMultipartUpload _), _ => { g with failed := true }
  | .s3 (.uploadPart _ _ partNumber _ _), Except.ok (some eTag) =>
    { g with listed := g.listed ++ [⟨partNumber, eTag⟩] }
  | .s3 (.uploadPart _ _ _ _ _), _ => { g with failed := true }
  | .s3 (.completeMultipartUpload _ _ _), Except.ok () => { g with wrote := true }
  | .s3 (.completeMultipartUpload _ _ _), Except.error _ => { g with failed := true }
  | .s3 (.abortMultipartUpload _ _), _ => { g with aborted := true }
  | .now, t => { g with stamp := some t }
  | .timer, _ => g
  | .slot _ _, s => { g with slot := some s }
  | .acquire _, .initialized v => { g with shared := some v }
  | .acquire _, .permit => { g with permit := true }
  | .settle _ _, _ => { g with permit := false }
  | .markPresent _ _, _ => { g with marked := true }
  | .read _ item, _ => { g with ended := g.ended || item = .eof }
  | .log _, _ => g

/-- Its `HeadObject` did not find the object. -/
def Absent : Prop := ∃ e, g.probe = some (.error e)

/-- It has neither written the object nor given up. -/
def Open : Prop := g.wrote = false ∧ g.failed = false ∧ g.aborted = false

/-- It is storing an object that its `HeadObject` did not find. -/
def Storing : Prop := g.Absent ∧ g.Open

/-- The value a probe with this reply gives its slot's cell. -/
def verdict : Except HeadError Unit → Option Bool
  | .ok () => some true
  | .error .notFound => some false
  | .error (.other _) => none

/-- Only a success says that the object is there. -/
theorem verdict_eq_true {reply : Except HeadError Unit} :
    verdict reply = some true ↔ reply = .ok () := by
  rcases reply with (_ | err) | u <;> simp [verdict]

theorem verdict_eq_false {reply : Except HeadError Unit} :
    verdict reply = some false ↔ reply = .error .notFound := by
  rcases reply with (_ | err) | u <;> simp [verdict]

/-- What a writer of `hash` may do next. -/
def WriterAllows (hash : Hash) (body : Body) : Act → Prop
  | .s3 (.headObject key) => key = hash ∧ g.probe = none
  | .s3 (.putObject key bytes) => key = hash ∧ g.Storing ∧ g.ended = true ∧
      body.complete = true ∧ bytes = body.bytes
  | .s3 (.createMultipartUpload key) => key = hash ∧ g.Storing ∧ g.upload = none
  | .s3 (.uploadPart key id partNumber contentLength bytes) => key = hash ∧ g.Storing ∧
      g.upload = some id ∧ partNumber = g.listed.length + 1 ∧ contentLength = bytes.length ∧
      (uploadParts body)[g.listed.length]? = some bytes
  | .s3 (.completeMultipartUpload key id parts) => key = hash ∧ g.Storing ∧
      g.upload = some id ∧ g.ended = true ∧ body.complete = true ∧ parts = g.listed ∧
      parts ≠ [] ∧ parts.map CompletedPart.partNumber = List.range' 1 (uploadParts body).length
  | .s3 (.abortMultipartUpload key id) => key = hash ∧ g.Absent ∧ g.upload = some id ∧
      (g.failed = true ∨ body.complete = false)
  | .now => True
  | .timer => True
  | .markPresent key now => key = hash ∧ g.stamp = some now ∧
      (g.probe = some (.ok ()) ∨ g.wrote = true)
  | .read _ _ => True
  | .log _ => True
  | _ => False

/-- What a reader of `hash` may do next. -/
def ReaderAllows (hash : Hash) : Act → Prop
  | .now => True
  | .slot key now => key = hash ∧ g.slot = none ∧ g.stamp = some now
  | .acquire s => g.slot = some s ∧ g.permit = false ∧ g.shared = none ∧ g.probe = none
  | .s3 (.headObject key) => key = hash ∧ g.permit = true ∧ g.probe = none
  | .settle s value => g.slot = some s ∧ g.permit = true ∧
      ∃ reply, g.probe = some reply ∧ value = verdict reply
  | .s3 (.getObject key) => key = hash ∧ g.permit = false ∧
      (g.shared = some true ∨ g.probe = some (.ok ()))
  | .log _ => True
  | _ => False

/-- What a refused request may do next. -/
def RefusedAllows : Act → Prop
  | .timer => True
  | .read _ _ => True
  | .log _ => True
  | _ => False

/-- What a request in this role may do, from what it knows. -/
def Allows (role : Role) (body : Body) : Act → Prop :=
  match role with
  | .writer hash => g.WriterAllows hash body
  | .reader hash => g.ReaderAllows hash
  | .refused _ => RefusedAllows

/-- How a writer's task may end. -/
def WriterEnds (body : Body) (response : Response) : Prop :=
  g.probe = some (.ok ()) ∧ g.marked = true ∧
      response = textReply 409 "Cannot override an existing record" ∨
  g.Absent ∧ g.wrote = true ∧ g.marked = true ∧ response = textReply 200 "" ∨
  g.Absent ∧ g.wrote = false ∧ body.complete = false ∧
      response = plainText 400 "Client disconnected during upload" ∨
  g.Absent ∧ g.wrote = false ∧ g.failed = true ∧ response = plainText 403 "Forbidden"

/-- How a reader's task may end. -/
def ReaderEnds (response : Response) : Prop :=
  g.permit = false ∧
  ((∃ body, g.got = some (.ok body) ∧
      response = ⟨200, some "application/octet-stream", none, .object body⟩) ∨
    response = plainText 404 "The record was not found" ∧
      ((g.shared = some false ∨ g.Absent) ∨ ∃ e, g.got = some (.error e)))

/-- How it may be answered. -/
def Ends (role : Role) (body : Body) (response : Response) : Prop :=
  match role with
  | .writer _ => g.WriterEnds body response
  | .reader _ => g.ReaderEnds response
  | .refused answer => response = answer

end Session

/-- The contract of a request. -/
def session (role : Role) (body : Body) : Prog.Contract Act Act.Resp Session where
  allow g e := g.Allows role body e
  promise _ _ _ := True
  update g e resp := g.learn e resp

theorem session_unpromising (role : Role) (body : Body) : (session role body).Unpromising :=
  fun _ _ _ => trivial

end NxCacheServer.Server
