import NxCacheServer.Server.Router

/-!
# Which keys reach the storage

The server hands keys to `storage.exists`, `storage.store` and
`storage.retrieve`, whatever these do with them. `PassesOnly keys task` says
that the keys a task hands over are all in `keys`. A task is a function of its
provider, so one that passes `k` is exposed by a provider that does something
else at `k` and nowhere else (`PassesOnly.of_differ`), and each operation passes
exactly its own key (`existsKey_iff`, `store_iff`, `retrieve_iff`).

`serve_passesOnly` is the result for the whole route, for every provider,
configuration and request.
-/

namespace NxCacheServer.Server

open NxCacheServer.Domain NxCacheServer.Infra NxCacheServer.Lib

/-- `a` and `b` do the same with the keys in `keys`. -/
structure StorageProvider.AgreeOn (keys : Hash → Prop) (a b : StorageProvider) : Prop where
  existsKey : ∀ hash, keys hash → a.existsKey hash = b.existsKey hash
  store : ∀ hash, keys hash → a.store hash = b.store hash
  retrieve : ∀ hash, keys hash → a.retrieve hash = b.retrieve hash

/-- Providers that agree on more keys agree on fewer. -/
theorem StorageProvider.AgreeOn.mono {keys keys' : Hash → Prop} {a b : StorageProvider}
    (h : a.AgreeOn keys' b) (hkeys : ∀ hash, keys hash → keys' hash) : a.AgreeOn keys b where
  existsKey hash hkey := h.existsKey hash (hkeys hash hkey)
  store hash hkey := h.store hash (hkeys hash hkey)
  retrieve hash hkey := h.retrieve hash (hkeys hash hkey)

/-- The keys `task` passes to its storage are in `keys`: what the storage would
do with any other key makes no difference. -/
def PassesOnly {α : Type} (keys : Hash → Prop) (task : StorageProvider → Async α) : Prop :=
  ∀ a b : StorageProvider, a.AgreeOn keys b → task a = task b

namespace PassesOnly

variable {keys keys' : Hash → Prop} {hash : Hash} {body : Body} {α β : Type}
  {task : StorageProvider → Async α}

/-- A task that passes only some keys passes only more. -/
theorem mono (h : PassesOnly keys task) (hkeys : ∀ hash, keys hash → keys' hash) :
    PassesOnly keys' task := fun a b hagree => h a b (hagree.mono hkeys)

/-- A task that tells apart two providers which differ at `hash` alone passes
`hash`. -/
theorem of_differ (h : PassesOnly keys task) {a b : StorageProvider}
    (hagree : a.AgreeOn (fun key => key ≠ hash) b) (hne : task a ≠ task b) : keys hash := by
  by_contra hno
  have hother : ∀ key, keys key → key ≠ hash := by
    intro key hkey heq
    rw [heq] at hkey
    exact hno hkey
  exact hne (h a b (hagree.mono hother))

/-- Storage where nothing is found and nothing is kept. -/
private def nullStorage : StorageProvider where
  existsKey _ := .done (.ok false)
  store _ body := .done (.error .operationFailed, body)
  retrieve _ := .done (.error .notFound)

/-! Each operation passes its own key. -/

/-- `exists` is asked about its key and no other. -/
theorem existsKey_iff : (PassesOnly keys fun storage => storage.existsKey hash) ↔ keys hash := by
  constructor
  · intro h
    -- the null storage, were it not for `hash`
    let found : StorageProvider :=
      { nullStorage with existsKey := fun key => .done (.ok (decide (key = hash))) }
    have hagree : nullStorage.AgreeOn (fun key => key ≠ hash) found := by
      refine ⟨?_, fun _ _ => rfl, fun _ _ => rfl⟩
      intro key hkey
      simp [nullStorage, found, hkey]
    exact h.of_differ hagree (by simp [nullStorage, found])
  · intro hkey a b hagree
    exact hagree.existsKey hash hkey

theorem store_iff : (PassesOnly keys fun storage => storage.store hash body) ↔ keys hash := by
  constructor
  · intro h
    let kept : StorageProvider := { nullStorage with
      store := fun key body =>
        if key = hash then .done (.ok (), body) else nullStorage.store key body }
    have hagree : nullStorage.AgreeOn (fun key => key ≠ hash) kept := by
      refine ⟨fun _ _ => rfl, ?_, fun _ _ => rfl⟩
      intro key hkey
      simp [kept, hkey]
    exact h.of_differ hagree (by simp [nullStorage, kept])
  · intro hkey a b hagree
    exact congrFun (hagree.store hash hkey) body

theorem retrieve_iff : (PassesOnly keys fun storage => storage.retrieve hash) ↔ keys hash := by
  constructor
  · intro h
    let found : StorageProvider := { nullStorage with
      retrieve := fun key =>
        if key = hash then .done (.ok ⟨[], none⟩) else nullStorage.retrieve key }
    have hagree : nullStorage.AgreeOn (fun key => key ≠ hash) found := by
      refine ⟨fun _ _ => rfl, fun _ _ => rfl, ?_⟩
      intro key hkey
      simp [found, hkey]
    exact h.of_differ hagree (by simp [nullStorage, found])
  · intro hkey a b hagree
    exact hagree.retrieve hash hkey

/-! How tasks are put together. -/

/-- A task without storage passes nothing. -/
theorem pure {p : Async α} : PassesOnly keys fun _ => p := fun _ _ _ => rfl

/-- What is done around a task without the storage passes nothing. -/
theorem wrap (f : Async α → Async β) (h : PassesOnly keys task) :
    PassesOnly keys fun storage => f (task storage) :=
  fun a b hagree => congrArg f (h a b hagree)

theorem bind {f : α → StorageProvider → Async β} (h : PassesOnly keys task)
    (hf : ∀ x, PassesOnly keys (f x)) :
    PassesOnly keys fun storage => task storage >>= fun x => f x storage := by
  intro a b hagree
  have hcont : (fun x => f x a) = fun x => f x b := funext fun x => hf x a b hagree
  show task a >>= (fun x => f x a) = task b >>= fun x => f x b
  rw [h a b hagree, hcont]

end PassesOnly

/-! ## The handlers and the route -/

section

variable {hash : Hash} {body : Body}

theorem storeAbsent_passesOnly {keys : Hash → Prop} (hkey : keys hash) :
    PassesOnly keys fun storage => storeAbsent storage hash body :=
  .bind (PassesOnly.store_iff.mpr hkey) fun _ => .pure

variable [RustChar]

/-- A writer passes valid keys only: an invalid one is refused before the storage is
asked. -/
theorem storeArtifact_passesOnly :
    PassesOnly ValidHash fun storage => storeArtifact storage hash body := by
  unfold storeArtifact
  by_cases hvalid : ValidHash hash
  · rw [show validateHash hash = .ok () from hvalid]
    refine .bind (PassesOnly.existsKey_iff.mpr hvalid) ?_
    intro found
    split
    -- a key that is there is marked in the cache, and not stored
    next => exact .pure
    next => exact storeAbsent_passesOnly hvalid
  · rw [validateHash_invalid hvalid]
    exact .pure

theorem retrieveArtifact_passesOnly :
    PassesOnly ValidHash fun storage => retrieveArtifact storage hash := by
  unfold retrieveArtifact
  by_cases hvalid : ValidHash hash
  · rw [show validateHash hash = .ok () from hvalid]
    refine .bind (.wrap (present hash) (PassesOnly.existsKey_iff.mpr hvalid)) ?_
    intro found
    cases found.toOption.getD false with
    | false => exact .pure
    | true => exact .bind (PassesOnly.retrieve_iff.mpr hvalid) fun _ => .pure
  · rw [validateHash_invalid hvalid]
    exact .pure

/-- A handler runs on what the path decodes to, if it runs at all. -/
theorem cacheRoutes_passesOnly {request : Request} :
    PassesOnly ValidHash fun storage => cacheRoutes storage request := by
  unfold cacheRoutes
  cases pathHash request.segment with
  -- the extractor fails, and no handler runs
  | none => cases request.method <;> exact .pure
  | some hash =>
    cases request.method with
    | other name => exact .pure
    | put => exact .bind storeArtifact_passesOnly fun _ => .pure
    | get => exact .bind retrieveArtifact_passesOnly fun _ => .pure
    | head => exact .bind retrieveArtifact_passesOnly fun _ => .pure

/-- **The storage only ever sees valid keys**, whatever storage it is, and
whatever the request and its answers. -/
theorem serve_passesOnly {config : ServerConfig} {request : Request} :
    PassesOnly ValidHash fun storage => serve storage config request := by
  refine .bind ?_ fun _ => .pure
  intro a b hagree
  have hroutes : cacheRoutes a = cacheRoutes b :=
    funext fun request => cacheRoutes_passesOnly a b hagree
  exact congrArg (authMiddleware config request) hroutes

end

end NxCacheServer.Server
