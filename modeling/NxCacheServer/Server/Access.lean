import NxCacheServer.Server.Middleware

/-!
# Access rights

Which `Authorization` headers get which access. The middleware compares a
header only after `to_str`, which takes visible ASCII, while validation takes
any non-empty token: `rights_iff_usable` says for which configurations the two
agree.

`Grants` says what a header gives by what becomes of every request that carries it.
`access` computes it, and the two agree (`grants_iff`). A token is text and a header
is bytes, so the comparison is one of bytes, and a token that is not plain ASCII has
bytes that `to_str` refuses. `accentedToken_denied` is such a token, which validation
takes and the middleware never does.
-/

namespace NxCacheServer.Server

open NxCacheServer.Domain NxCacheServer.Infra NxCacheServer.Lib

/-- What a header is good for. -/
inductive Access
  | none
  | read
  | readWrite
  deriving DecidableEq, Repr

/-- The header a client with `token` sends. -/
def bearer (token : String) : Option Bytes := some (bearerPrefix ++ tokenBytes token)

section

variable (config : ServerConfig)

/-- The request goes on to its route, and that is all. -/
def Passes (request : Request) : Prop :=
  ∀ next, authMiddleware config request next =
    next request >>= fun response => .done (.ok response)

/-- The request is answered 403 once its body is drained. -/
def Forbids (request : Request) : Prop :=
  ∀ next, authMiddleware config request next =
    drainBody request.body >>= fun _ => .done (.error .forbidden)

/-- The request is answered 401 before it gets to a handler. -/
def Denies (request : Request) : Prop :=
  ∀ next, authMiddleware config request next = .done (.error .unauthorized)

/-- `auth_middleware` gives `header` this access, whatever else the request is. -/
def Grants (header : Option Bytes) : Access → Prop
  | .readWrite => ∀ request, request.authorization = header → Passes config request
  | .read => ∀ request, request.authorization = header →
      if request.method.isRead then Passes config request else Forbids config request
  | .none => ∀ request, request.authorization = header → Denies config request

/-- The rights are exactly the configured ones. -/
structure RightsConfigured : Prop where
  readWrite : ∀ header, Grants config header .readWrite ↔ header = bearer config.serviceAccessToken
  read : ∀ header, Grants config header .read ↔
    ∃ token, config.readOnlyAccessToken = some token ∧ header = bearer token
  none : ∀ header, Grants config header .none ↔ header ≠ bearer config.serviceAccessToken ∧
    ∀ token, config.readOnlyAccessToken = some token → header ≠ bearer token

/-! ## What the middleware grants -/

/-- The token `auth_middleware` reads from a header. -/
def headerToken (header : Option Bytes) : Option Bytes := do
  let header ← header
  let authValue ← toStr header
  stripPrefix bearerPrefix authValue

/-- The access `auth_middleware` gives to a header. -/
def access (header : Option Bytes) : Access :=
  match headerToken header with
  | .none => .none
  | some token =>
    if isReadWrite config token then .readWrite
    else if isReadOnly config token then .read
    else .none

variable {config} {header : Option Bytes} {a b : Access} {token : String} {bytes : Bytes}

theorem grants_access : Grants config header (access config header) := by
  unfold access
  cases htoken : headerToken header with
  | none =>
    intro request hheader next
    rw [← hheader] at htoken
    exact authMiddleware_noToken htoken
  | some token =>
    dsimp only
    cases hrw : isReadWrite config token with
    | true =>
      intro request hheader next
      rw [← hheader] at htoken
      exact authMiddleware_granted htoken (Or.inl hrw)
    | false =>
      cases hro : isReadOnly config token with
      | true =>
        intro request hheader
        rw [← hheader] at htoken
        split
        next hread =>
          intro next
          exact authMiddleware_granted htoken (Or.inr ⟨hro, hread⟩)
        next hread =>
          intro next
          exact authMiddleware_refused htoken hrw hro (by simpa using hread)
      | false =>
        intro request hheader next
        rw [← hheader] at htoken
        exact authMiddleware_unknown htoken hrw hro

/-- Draining takes at least one action. -/
theorem drainBody_bind_ne_done {α : Type} {body : Body} {f : Unit → Async α} {x : α} :
    drainBody body >>= f ≠ .done x := by
  rw [drainBody, drainBodyWithin, Async.timer_bind, Prog.act_bind]
  intro h
  cases h

/-- A PUT tells the three kinds of access apart. -/
theorem access_unique (ha : Grants config header a) (hb : Grants config header b) : a = b := by
  let put : Request := ⟨.put, ⟨[97], by decide, by decide⟩, header, .eof 0⟩
  let next : Request → Async Response := fun _ => .done (plainText 200 "")
  have hrw : Grants config header .readWrite →
      authMiddleware config put next = .done (.ok (plainText 200 "")) := fun h => h put rfl next
  have hro : Grants config header .read → authMiddleware config put next =
      drainBody (.eof 0) >>= fun _ => .done (.error .forbidden) := by
    intro h
    have hput := h put rfl
    rw [if_neg (show ¬ Method.put.isRead = true by decide)] at hput
    exact hput next
  have hno : Grants config header .none →
      authMiddleware config put next = .done (.error .unauthorized) := fun h => h put rfl next
  cases a <;> cases b
  case none.none | read.read | readWrite.readWrite => rfl
  case none.read => exact absurd ((hro hb).symm.trans (hno ha)) drainBody_bind_ne_done
  case none.readWrite => cases (hno ha).symm.trans (hrw hb)
  case read.none => exact absurd ((hro ha).symm.trans (hno hb)) drainBody_bind_ne_done
  case read.readWrite => exact absurd ((hro ha).symm.trans (hrw hb)) drainBody_bind_ne_done
  case readWrite.none => cases (hno hb).symm.trans (hrw ha)
  case readWrite.read => exact absurd ((hro hb).symm.trans (hrw ha)) drainBody_bind_ne_done

/-- The middleware grants one kind of access, and that is `access`. -/
theorem grants_iff : Grants config header a ↔ a = access config header := by
  constructor
  · intro h
    exact access_unique h grants_access
  · intro h
    rw [h]
    exact grants_access

/-! ## Tokens that can be used -/

/-- `to_str` lets the token through: visible ASCII, spaces and tabs. -/
def Usable (token : String) : Prop := toStr (tokenBytes token) = some (tokenBytes token)

instance (token : String) : Decidable (Usable token) :=
  inferInstanceAs (Decidable (toStr (tokenBytes token) = some (tokenBytes token)))

/-- `to_str` hands the bytes back as they are, if it does. -/
theorem toStr_eq_some {s : Bytes} (h : toStr bytes = some s) : s = bytes := by
  unfold toStr at h
  split at h
  · exact (Option.some.inj h).symm
  · cases h

theorem stripPrefix_append (start rest : Bytes) :
    stripPrefix start (start ++ rest) = some rest := by
  induction start with
  | nil => rfl
  | cons b start ih => rw [List.cons_append, stripPrefix, if_pos rfl, ih]

/-- The prefix is made of characters that `to_str` accepts, so the token decides. -/
theorem toStr_bearer : toStr (bearerPrefix ++ bytes) = some (bearerPrefix ++ bytes) ↔
    toStr bytes = some bytes := by
  have hprefix : (bearerPrefix.all fun b => (32 ≤ b && b < 127) || b == 9) = true := by decide
  unfold toStr
  rw [List.all_append, hprefix, Bool.true_and]
  split <;> simp

/-- The middleware reads a token from its bearer header, if `to_str` lets it
through, and from no other header. -/
theorem headerToken_eq_some :
    headerToken header = some bytes ↔ header = some (bearerPrefix ++ bytes) ∧
      toStr bytes = some bytes := by
  constructor
  · intro h
    obtain ⟨value, hheader, hrest⟩ := Option.bind_eq_some_iff.mp h
    obtain ⟨authValue, hvalue, h⟩ := Option.bind_eq_some_iff.mp hrest
    have heq := toStr_eq_some hvalue
    rw [← heq, stripPrefix_eq_some h] at hheader
    rw [← heq, stripPrefix_eq_some h] at hvalue
    exact ⟨hheader, toStr_bearer.mp hvalue⟩
  · intro h
    obtain ⟨hheader, husable⟩ := h
    have hstr := toStr_bearer.mpr husable
    simp [headerToken, hheader, hstr, stripPrefix_append]

/-- The comparison with the service token is equality, whatever its timing. -/
theorem isReadWrite_iff : isReadWrite config bytes = true ↔
    bytes = tokenBytes config.serviceAccessToken := by
  simp [isReadWrite, ctEq]

/-- So is that with the read-only token, if there is one. -/
theorem isReadOnly_iff : isReadOnly config bytes = true ↔
    ∃ token, config.readOnlyAccessToken = some token ∧ bytes = tokenBytes token := by
  simp [isReadOnly, ctEq, Option.any_eq_true]

/-- Full access is for the service token alone, and only if a header can carry it. -/
theorem access_readWrite_iff : access config header = .readWrite ↔
    header = bearer config.serviceAccessToken ∧ Usable config.serviceAccessToken := by
  unfold bearer Usable
  rw [← headerToken_eq_some, access]
  cases htoken : headerToken header with
  | none => simp
  | some bytes =>
    dsimp only
    rw [Option.some.injEq, ← isReadWrite_iff]
    split
    next h => simp [h]
    next h => split <;> simp [h]

/-- A valid configuration keeps its two tokens apart. -/
theorem validate_ok (h : config.validate = .ok ()) (hro : config.readOnlyAccessToken = some token) :
    token ≠ config.serviceAccessToken := by
  intro heq
  unfold ServerConfig.validate ServerConfig.validateReadOnly at h
  rw [hro, heq] at h
  cases hempty : config.serviceAccessToken.isEmpty <;>
    simp [hempty, bind, Except.bind] at h

/-- Read access is for the read-only token, and only if a header can carry it. -/
theorem access_read_iff (hvalid : config.validate = .ok ()) : access config header = .read ↔
    ∃ token, config.readOnlyAccessToken = some token ∧ header = bearer token ∧ Usable token := by
  have hread : access config header = .read ↔ ∃ bytes, headerToken header = some bytes ∧
      isReadWrite config bytes = false ∧ isReadOnly config bytes = true := by
    unfold access
    cases headerToken header with
    | none => simp
    | some bytes =>
      cases hrw : isReadWrite config bytes <;> cases hro : isReadOnly config bytes <;> simp [hrw, hro]
  rw [hread]
  constructor
  · intro h
    obtain ⟨bytes, htoken, -, hro⟩ := h
    obtain ⟨token, hconfig, rfl⟩ := isReadOnly_iff.mp hro
    obtain ⟨hheader, husable⟩ := headerToken_eq_some.mp htoken
    exact ⟨token, hconfig, hheader, husable⟩
  · intro h
    obtain ⟨token, hconfig, hheader, husable⟩ := h
    refine ⟨tokenBytes token, headerToken_eq_some.mpr ⟨hheader, husable⟩, ?_,
      isReadOnly_iff.mpr ⟨token, hconfig, rfl⟩⟩
    rw [Bool.eq_false_iff]
    intro hrw
    exact validate_ok hvalid hconfig (tokenBytes_injective (isReadWrite_iff.mp hrw))

/-- **When the rights are the configured ones.** For a configuration that passes
validation: if and only if `to_str` lets all its tokens through. -/
theorem rights_iff_usable (hvalid : config.validate = .ok ()) :
    RightsConfigured config ↔ Usable config.serviceAccessToken ∧
      ∀ token, config.readOnlyAccessToken = some token → Usable token := by
  constructor
  · intro h
    refine ⟨?_, ?_⟩
    · have hgrants := (h.readWrite _).mpr rfl
      exact (access_readWrite_iff.mp (grants_iff.mp hgrants).symm).2
    · intro token hconfig
      have hgrants := (h.read _).mpr ⟨token, hconfig, rfl⟩
      obtain ⟨token', hconfig', -, husable⟩ := (access_read_iff hvalid).mp (grants_iff.mp hgrants).symm
      rw [hconfig] at hconfig'
      rw [Option.some.inj hconfig']
      exact husable
  · intro h
    obtain ⟨hservice, hreadOnly⟩ := h
    have hrw : ∀ header, Grants config header .readWrite ↔
        header = bearer config.serviceAccessToken := by
      intro header
      rw [grants_iff, eq_comm, access_readWrite_iff]
      exact ⟨And.left, fun h => ⟨h, hservice⟩⟩
    have hro : ∀ header, Grants config header .read ↔
        ∃ token, config.readOnlyAccessToken = some token ∧ header = bearer token := by
      intro header
      rw [grants_iff, eq_comm, access_read_iff hvalid]
      constructor
      · intro h
        obtain ⟨token, hconfig, hheader, -⟩ := h
        exact ⟨token, hconfig, hheader⟩
      · intro h
        obtain ⟨token, hconfig, hheader⟩ := h
        exact ⟨token, hconfig, hheader, hreadOnly token hconfig⟩
    refine ⟨hrw, hro, ?_⟩
    intro header
    -- every header is granted one of the three
    have hthree : access config header = .none ↔
        ¬ Grants config header .readWrite ∧ ¬ Grants config header .read := by
      rw [grants_iff, grants_iff]
      cases access config header <;> decide
    rw [grants_iff, eq_comm, hthree, hrw, hro]
    exact and_congr_right fun _ => by simp

/-- The bytes an HTTP header value may hold. -/
def headerByte (b : UInt8) : Bool := (32 ≤ b && b != 127) || b == 9

/-- A token of one accented letter. -/
def accentedConfig : ServerConfig := ⟨3000, "é", none⟩

/-- It passes validation and its header is a legal one, but it is never let in. -/
theorem accentedToken_denied :
    accentedConfig.validate = .ok () ∧ ((bearer "é").any fun b => b.all headerByte) = true ∧
      Grants accentedConfig (bearer "é") .none ∧ ¬ RightsConfigured accentedConfig := by
  have hnone : access accentedConfig (bearer "é") = .none := by decide
  refine ⟨rfl, by decide, grants_iff.mpr hnone.symm, ?_⟩
  intro h
  have hgrants := (h.readWrite (bearer "é")).mpr rfl
  rw [grants_iff, hnone] at hgrants
  cases hgrants

/-- Plain tokens work. -/
theorem plainTokens_rights : RightsConfigured ⟨3000, "rw", some "ro"⟩ := by
  refine (rights_iff_usable rfl).mpr ⟨by decide, ?_⟩
  intro token h
  cases h
  decide

end

end NxCacheServer.Server
