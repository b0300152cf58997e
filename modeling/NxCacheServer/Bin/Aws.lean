import NxCacheServer.Infra.Startup

/-!
# The process

`main` of `src/bin/aws.rs` up to `run_server`: it validates the configuration of
the server and that of the storage, opens the storage, and serves, or says on
standard error why it does not and exits with code 1.

Mirroring notes:
- `exit(1)` is the end of the program with what went to standard error.
- Both configurations are validated before the storage is opened, that of the server
  first.
- What `run_server` does is part of `NxCacheServer.System.Deployment`.

`Fit` is what the two validations ask of a command line, check by check. With it,
`boot_serves_iff` says which answers of the environment let the process serve.
-/

namespace NxCacheServer.Bin

open NxCacheServer.Domain NxCacheServer.Infra NxCacheServer.Lib

/-- `AwsCli`. The address is only ever printed and bound. -/
structure AwsCli where
  server : ServerConfig
  bindAddress : String
  storage : AwsStorageConfig
  deriving DecidableEq, Repr

/-- What `main` prints when the storage cannot be set up. -/
def storageFailure (e : StorageError) : String :=
  String.join ["\n", "Failed to initialize S3 storage: " ++ e.display ++ "\n", "\n",
    "Please check your AWS credentials and configuration.\n"]

/-- What `main` prints when `run_server` fails. -/
def serverFailure (e : String) : String := String.join ["\n", "Server error: " ++ e ++ "\n"]

/-- `main`, up to `run_server`: the storage to serve from, or what standard error
gets before the exit. -/
def boot (cli : AwsCli) : Boot (Except String S3Storage) :=
  match cli.server.validate with
  | .error e => pure (.error (e.display ++ "\n"))
  | .ok () => do
    match ← cli.storage.validate with
    | .error e => pure (.error (e.display ++ "\n"))
    | .ok () => do
      match ← S3Storage.new cli.storage with
      | .error e => pure (.error (storageFailure e))
      | .ok storage => do
        Boot.log (.starting cli.bindAddress cli.server.port)
        pure (.ok storage)

/-! ## When it serves -/

section

variable {c : Prop} [Decidable c] {e : ConfigError} {f : Unit → Except ConfigError Unit}

/-- A check that passes, before the others. -/
theorem check_bind : (if c then .error e >>= f else f ()) = .ok () ↔ ¬ c ∧ f () = .ok () := by
  by_cases hc : c <;> simp [hc, bind, Except.bind]

theorem check_ok : (if c then Except.error e else pure ()) = Except.ok () ↔ ¬ c := by
  by_cases hc : c <;> simp [hc, pure, Except.pure]

/-- A sequence of checks passes if each of them does. -/
theorem ok_bind {x : Except ConfigError Unit} :
    (x >>= f) = .ok () ↔ x = .ok () ∧ f () = .ok () := by
  cases x <;> simp [bind, Except.bind]

end

/-- The checks of the read-only token, if there is one: not empty, and not the
service token. -/
theorem validateReadOnly_iff {config : ServerConfig} : config.validateReadOnly = .ok () ↔
    ∀ token, config.readOnlyAccessToken = some token →
      token ≠ "" ∧ token ≠ config.serviceAccessToken := by
  unfold ServerConfig.validateReadOnly
  cases config.readOnlyAccessToken with
  | none => simp
  | some token =>
    by_cases hempty : token = ""
    · simp [hempty]
    · by_cases hsame : token = config.serviceAccessToken
      · rw [hsame] at hempty
        simp [hsame, hempty]
      · simp [hempty, hsame]

theorem server_validate_iff {config : ServerConfig} : config.validate = .ok () ↔
    config.serviceAccessToken ≠ "" ∧
      (∀ token, config.readOnlyAccessToken = some token →
        token ≠ "" ∧ token ≠ config.serviceAccessToken) ∧
      config.port ≠ 0 := by
  unfold ServerConfig.validate
  dsimp only
  rw [check_bind, ok_bind, check_ok, validateReadOnly_iff, String.isEmpty_iff]

/-- The scheme an endpoint has to have. -/
def HasScheme (url : String) : Prop :=
  AwsStorageConfig.startsWith url "http://" = true ∨
    AwsStorageConfig.startsWith url "https://" = true

/-- The check of the endpoint, if there is one. -/
theorem validateEndpoint_iff {config : AwsStorageConfig} : config.validateEndpoint = .ok () ↔
    ∀ url, config.endpointUrl = some url → HasScheme url := by
  unfold AwsStorageConfig.validateEndpoint HasScheme
  cases config.endpointUrl with
  | none => simp
  | some url =>
    by_cases hhttp : AwsStorageConfig.startsWith url "http://" = true <;>
      by_cases hhttps : AwsStorageConfig.startsWith url "https://" = true <;>
      simp [hhttp, hhttps]

/-- Static credentials come as a pair or not at all. -/
theorem validatePair_iff {config : AwsStorageConfig} : config.validatePair = .ok () ↔
    config.accessKeyId.isSome = config.secretAccessKey.isSome := by
  unfold AwsStorageConfig.validatePair
  cases config.accessKeyId <;> cases config.secretAccessKey <;> simp

/-- What `AwsStorageConfig::validate` lets pass. -/
theorem validateFields_iff {config : AwsStorageConfig} : config.validateFields = .ok () ↔
    config.bucketName ≠ "" ∧ (∀ url, config.endpointUrl = some url → HasScheme url) ∧
      config.accessKeyId.isSome = config.secretAccessKey.isSome := by
  unfold AwsStorageConfig.validateFields
  dsimp only
  rw [check_bind, ok_bind, validateEndpoint_iff, validatePair_iff, String.isEmpty_iff]

/-- A configuration that passes validation, as far as it can be checked without
asking for a region. -/
structure Fit (cli : AwsCli) : Prop where
  token : cli.server.serviceAccessToken ≠ ""
  readOnly : ∀ token, cli.server.readOnlyAccessToken = some token →
    token ≠ "" ∧ token ≠ cli.server.serviceAccessToken
  port : cli.server.port ≠ 0
  bucket : cli.storage.bucketName ≠ ""
  endpoint : ∀ url, cli.storage.endpointUrl = some url → HasScheme url
  pair : cli.storage.accessKeyId.isSome = cli.storage.secretAccessKey.isSome

/-- A configuration is fit if both validations let it pass. -/
theorem fit_iff {cli : AwsCli} :
    Fit cli ↔ cli.server.validate = .ok () ∧ cli.storage.validateFields = .ok () := by
  rw [server_validate_iff, validateFields_iff]
  constructor
  · intro h
    exact ⟨⟨h.token, h.readOnly, h.port⟩, h.bucket, h.endpoint, h.pair⟩
  · intro h
    obtain ⟨⟨htoken, hreadOnly, hport⟩, hbucket, hendpoint, hpair⟩ := h
    exact ⟨htoken, hreadOnly, hport, hbucket, hendpoint, hpair⟩

/-- An answer that lets the process go on: there is a region, and S3 does not
refuse the startup probe. -/
def Helpful : BootEvent → Prop
  | ⟨.discoverRegion, region⟩ => region ≠ none
  | ⟨.putObject _ _ _, .error failure⟩ => failure.clientError = false
  | _ => True

/-- The startup probe of `cli`. -/
def startupProbe (cli : AwsCli) : BootAct :=
  .putObject cli.storage.bucketName probeKey startupBody

/-- The contract of a boot: the ghost state is its history, and S3 is asked for
nothing but the startup probe, once, by a configuration that is fit. -/
def booting (cli : AwsCli) : Prog.Contract BootAct BootAct.Resp (List BootEvent) where
  allow h e :=
    match e with
    | .putObject _ _ _ => Fit cli ∧ e = startupProbe cli ∧ ∀ ev ∈ h, ev.1 ≠ startupProbe cli
    | _ => True
  promise _ _ _ := True
  update h e r := h ++ [⟨e, r⟩]

theorem booting_unpromising (cli : AwsCli) : (booting cli).Unpromising := fun _ _ _ => trivial

section

variable {cli : AwsCli} {h : List BootEvent} {α : Type}

/-- No answer so far stands in the way. -/
def Helped (h : List BootEvent) : Prop := ∀ ev ∈ h, Helpful ev

theorem helped_snoc {ev : BootEvent} : Helped (h ++ [ev]) ↔ Helped h ∧ Helpful ev := by
  simp [Helped, or_imp, forall_and]

/-- S3 has not been asked yet. -/
def Unasked (cli : AwsCli) (h : List BootEvent) : Prop := ∀ ev ∈ h, ev.1 ≠ startupProbe cli

/-- Any action but the startup probe leaves it unasked. -/
theorem unasked_snoc {ev : BootEvent} (hh : Unasked cli h) (hev : ev.1 ≠ startupProbe cli) :
    Unasked cli (h ++ [ev]) := by
  intro ev' hmem
  rcases List.mem_append.mp hmem with hold | hnew
  · exact hh ev' hold
  · rw [List.mem_singleton.mp hnew]
    exact hev

/-- The storage is opened if all answers were helpful, the one to the startup
probe among them. -/
def Opens (cli : AwsCli) (result : Except StorageError S3Storage) (h : List BootEvent) : Prop :=
  (result.isOk = true ↔ Helped h) ∧ (result.isOk = true → ∃ ev ∈ h, ev.1 = startupProbe cli)

/-- Where a boot ends: it serves if the configuration is fit and all answers were
helpful. -/
def Ends (cli : AwsCli) (result : Except String S3Storage) (h : List BootEvent) : Prop :=
  (result.isOk = true ↔ Fit cli ∧ Helped h) ∧
    (result.isOk = true → ∃ ev ∈ h, ev.1 = startupProbe cli)

/-- A process that was not helped has no storage. -/
theorem opens_error {e : StorageError} (hno : ¬ Helped h) : Opens cli (.error e) h :=
  ⟨⟨(fun hok => by cases hok), fun hh => absurd hh hno⟩, fun hok => by cases hok⟩

/-- A process that was helped has one once it has sent its probe. -/
theorem opens_ok {storage : S3Storage} {ev : BootEvent} (hh : Helped h) (hmem : ev ∈ h)
    (hev : ev.1 = startupProbe cli) : Opens cli (.ok storage) h :=
  ⟨⟨fun _ => hh, fun _ => rfl⟩, fun _ => ⟨ev, hmem, hev⟩⟩

/-- A process that is not fit, or was not helped, exits. -/
theorem ends_error {text : String} (hno : ¬ (Fit cli ∧ Helped h)) : Ends cli (.error text) h :=
  ⟨⟨(fun hok => by cases hok), fun hh => absurd hh hno⟩, fun hok => by cases hok⟩

/-- Finding a region keeps to the contract. -/
theorem resolveRegion_booting {Q : Option String → List BootEvent → Prop}
    (hsome : ∀ region, Q (some region) h)
    (hasked : ∀ region, Q region (h ++ [⟨.discoverRegion, region⟩])) :
    cli.storage.resolveRegion.wp (booting cli) Q h := by
  unfold AwsStorageConfig.resolveRegion
  cases cli.storage.region with
  | some region => exact hsome region
  | none => exact ⟨trivial, fun region _ => hasked region⟩

/-- The startup probe is sent once; only a 4xx keeps the storage from being opened.
-/
theorem proveWritable_booting (hfit : Fit cli) (hh : Helped h) (hunasked : Unasked cli h)
    (region : String) :
    (S3Storage.proveWritable cli.storage region).wp (booting cli) (Opens cli) h := by
  refine ⟨⟨hfit, rfl, hunasked⟩, fun reply _ => ?_⟩
  have hmem : (⟨startupProbe cli, reply⟩ : BootEvent) ∈ h ++ [⟨startupProbe cli, reply⟩] :=
    List.mem_append_right _ (List.mem_singleton_self _)
  rcases reply with failure | _
  · refine ⟨trivial, fun _ _ => ?_⟩
    cases hclient : failure.clientError with
    | true =>
      rw [if_pos rfl]
      refine opens_error ?_
      intro hall
      have hhelp : failure.clientError = false := hall _ (List.mem_append_left _ hmem)
      rw [hclient] at hhelp
      cases hhelp
    | false =>
      refine ⟨trivial, fun _ _ => ?_⟩
      refine opens_ok ?_ (List.mem_append_left _ (List.mem_append_left _ hmem)) rfl
      exact helped_snoc.mpr ⟨helped_snoc.mpr ⟨helped_snoc.mpr ⟨hh, hclient⟩, trivial⟩, trivial⟩
  · exact opens_ok (helped_snoc.mpr ⟨hh, trivial⟩) hmem rfl

/-- The check of `S3_TIMEOUT` writes a line at most. -/
theorem warnTimeout_booting (hh : Helped h) (hunasked : Unasked cli h) :
    (warnTimeout cli.storage).wp (booting cli) (fun _ h' => Helped h' ∧ Unasked cli h') h := by
  unfold warnTimeout
  split
  next =>
    refine ⟨trivial, fun _ _ => ⟨helped_snoc.mpr ⟨hh, trivial⟩, unasked_snoc hunasked ?_⟩⟩
    intro heq
    cases heq
  next => exact ⟨hh, hunasked⟩

/-- `S3Storage::new` opens the storage exactly if it is helped. -/
theorem new_booting (hfit : Fit cli) (hh : Helped h) (hunasked : Unasked cli h) :
    (S3Storage.new cli.storage).wp (booting cli) (Opens cli) h := by
  have hopen : ∀ (region : String) (h : List BootEvent), Helped h → Unasked cli h →
      (warnTimeout cli.storage >>= fun _ => S3Storage.proveWritable cli.storage region).wp
        (booting cli) (Opens cli) h := by
    intro region h hh hunasked
    refine Prog.wp_bind_of (warnTimeout_booting hh hunasked) ?_
    intro _ h' hh'
    exact proveWritable_booting hfit hh'.1 hh'.2 region
  unfold S3Storage.new
  rw [Prog.wp_bind]
  refine resolveRegion_booting ?_ ?_
  · intro region
    exact hopen region h hh hunasked
  · intro region
    cases region with
    | some region =>
      refine hopen region _ (helped_snoc.mpr ⟨hh, ?_⟩) (unasked_snoc hunasked ?_)
      · exact Option.some_ne_none region
      · intro heq
        cases heq
    | none =>
      refine ⟨trivial, fun _ _ => opens_error ?_⟩
      intro hall
      exact hall _
        (List.mem_append_left _ (List.mem_append_right _ (List.mem_singleton_self _))) rfl

/-- A boot keeps to its contract. -/
theorem boot_booting (cli : AwsCli) : (boot cli).wp (booting cli) (Ends cli) [] := by
  unfold boot
  cases hserver : cli.server.validate with
  | error e =>
    refine ends_error ?_
    intro hserves
    rw [(fit_iff.mp hserves.1).1] at hserver
    cases hserver
  | ok _ =>
    dsimp only
    unfold AwsStorageConfig.validate
    cases hfields : cli.storage.validateFields with
    | error e =>
      refine ends_error ?_
      intro hserves
      rw [(fit_iff.mp hserves.1).2] at hfields
      cases hfields
    | ok _ =>
      have hfit : Fit cli := fit_iff.mpr ⟨hserver, hfields⟩
      have hnew : ∀ h, Helped h → Unasked cli h →
          (S3Storage.new cli.storage >>= fun opened =>
            match opened with
            | .error e => pure (.error (storageFailure e))
            | .ok storage => do
              Boot.log (.starting cli.bindAddress cli.server.port)
              pure (.ok storage)).wp (booting cli) (Ends cli) h := by
        intro h hh hunasked
        refine Prog.wp_bind_of (new_booting hfit hh hunasked) ?_
        intro opened h' hopens
        cases opened with
        | error e => exact ends_error fun hserves => by cases hopens.1.mpr hserves.2
        | ok storage =>
          obtain ⟨ev, hmem, hev⟩ := hopens.2 rfl
          refine ⟨trivial, fun _ _ => ⟨⟨fun _ => ⟨hfit, ?_⟩, fun _ => rfl⟩, fun _ => ?_⟩⟩
          · exact helped_snoc.mpr ⟨hopens.1.mp rfl, trivial⟩
          · exact ⟨ev, List.mem_append_left _ hmem, hev⟩
      dsimp only
      rw [Prog.wp_bind, Prog.wp_bind]
      refine resolveRegion_booting ?_ ?_
      · intro region
        exact hnew [] (fun _ hmem => by cases hmem) fun _ hmem => by cases hmem
      · intro region
        cases region with
        | none => exact ends_error fun hserves => hserves.2 _ (List.mem_singleton_self _) rfl
        | some region =>
          refine hnew _ ?_ ?_
          · exact helped_snoc.mpr ⟨(fun _ hmem => by cases hmem), Option.some_ne_none region⟩
          · exact unasked_snoc (fun _ hmem => by cases hmem) fun heq => by cases heq

/-- The ghost state of a boot is its history. -/
theorem booting_after : ∀ h g : List BootEvent, (booting cli).after g h = g ++ h := by
  intro h
  induction h with
  | nil =>
    intro g
    exact (List.append_nil g).symm
  | cons ev h ih =>
    intro g
    exact (ih (g ++ [ev])).trans (List.append_cons g ev h).symm

/-- The process serves if and only if its configuration is fit, a region is found
whenever one is asked for, and S3 does not refuse the startup probe. -/
theorem boot_serves_iff {result : Except String S3Storage} (hruns : (boot cli).Runs h result) :
    result.isOk = true ↔ Fit cli ∧ Helped h := by
  have hends := Prog.wp_runs hruns (boot_booting cli) ((booting_unpromising cli).kept h [])
  rw [booting_after, List.nil_append] at hends
  exact hends.1

end

/-- A fit configuration with a region of its own. -/
def exampleCli : AwsCli where
  server := ⟨3000, "rw", some "ro"⟩
  bindAddress := "0.0.0.0"
  storage := ⟨some "eu-central-1", none, none, none, "cache", none, 30⟩

/-- S3 answers the startup probe with 403. -/
def refusedProbe : List BootEvent :=
  [⟨startupProbe exampleCli, .error ⟨⟨none, none, "AccessDenied"⟩, some 403⟩⟩,
    ⟨.log (.s3Error "startup-probe" probeKey ⟨none, none, "AccessDenied"⟩), ()⟩]

/-- The configuration is fit, so it is this answer that keeps the process from
serving. -/
theorem refusedProbe_exits : Prog.Runs (boot exampleCli) refusedProbe
      (.error (storageFailure .operationFailed)) ∧
    Fit exampleCli ∧ ¬ Helped refusedProbe := by
  have hruns : Prog.Runs (boot exampleCli) refusedProbe
      (.error (storageFailure .operationFailed)) := .act (.act (.done _))
  have hfit : Fit exampleCli := fit_iff.mpr ⟨by decide, by decide⟩
  refine ⟨hruns, hfit, ?_⟩
  intro hhelped
  have hserves := (boot_serves_iff hruns).mpr ⟨hfit, hhelped⟩
  cases hserves

end NxCacheServer.Bin
