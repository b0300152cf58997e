import NxCacheServer.Lib.Refines
import NxCacheServer.System.Admission
import NxCacheServer.System.Alarm
import NxCacheServer.System.Keys

/-!
# What a deployment shows of itself

The startup probes and the self-probes keep to one object that no request can
reach. A deployment without it is therefore a run of requests on a bucket as in
`NxCacheServer.System.World` (`Deployment.refines`), and what is known of every
such run holds of every deployment.

The probe object is hidden by putting the value it had at the start in its place
(`veil`). No request asks for its key, so a step of a request does not notice, and a
step of a process, which is about that object or about none, becomes no step at all.
Deletions of it from outside are erased with the rest.
-/

namespace NxCacheServer.System

open NxCacheServer.Bin NxCacheServer.Domain NxCacheServer.Infra NxCacheServer.Server
  NxCacheServer.Lib

namespace Bucket

variable {bucket : Bucket} {eTagOf : Bytes → ETag} {call : S3Call} {key : Hash}
  {value value' : Option Bytes}

/-- An answer does not depend on the objects of other keys. -/
theorem reply_setObject (hne : call.key ≠ key) :
    (bucket.setObject key value).reply eTagOf call = bucket.reply eTagOf call := by
  cases call with
  | headObject k | getObject k =>
    simp only [reply, setObject, Function.update_of_ne (show k ≠ key from hne)]
  | _ => rfl

/-- Objects of different keys can be replaced in any order. -/
theorem setObject_comm {key' : Hash} (hne : key' ≠ key) :
    (bucket.setObject key value).setObject key' value' =
      (bucket.setObject key' value').setObject key value := by
  simp only [setObject, Function.update_comm hne]

theorem setObject_setObject :
    (bucket.setObject key value').setObject key value = bucket.setObject key value := by
  simp only [setObject, Function.update_idem]

/-- A request leaves the objects of other keys alone. -/
theorem apply_setObject (hne : call.key ≠ key) :
    (bucket.setObject key value).apply eTagOf call =
      (bucket.apply eTagOf call).setObject key value := by
  cases call with
  | headObject k | getObject k | createMultipartUpload k => rfl
  | putObject k body => exact setObject_comm hne
  | uploadPart k id n len body =>
    have hopen : (bucket.setObject key value).openUpload k id = bucket.openUpload k id := rfl
    rw [apply, apply, hopen]
    cases bucket.openUpload k id with
    | none => rfl
    | some upload =>
      dsimp only
      split <;> rfl
  | completeMultipartUpload k id parts =>
    have hassemble : (bucket.setObject key value).assemble k id parts =
      bucket.assemble k id parts := rfl
    rw [apply, apply, hassemble]
    cases bucket.assemble k id parts with
    | none => rfl
    | some bytes => exact congrArg (Bucket.setUpload · id none) (setObject_comm hne)
  | abortMultipartUpload k id =>
    have hopen : (bucket.setObject key value).openUpload k id = bucket.openUpload k id := rfl
    rw [apply, apply, hopen]
    cases bucket.openUpload k id <;> rfl

end Bucket

namespace World

/-- The system with another object under `key`. -/
def veil (key : Hash) (value : Option Bytes) (w : World) : World :=
  { w with bucket := w.bucket.setObject key value }

variable [RustChar] {env : Env} {w w' : World} {l : Label} {key : Hash} {value : Option Bytes}

/-- What is under a key outside the grammar makes no difference to a step. -/
theorem step_veil (hw : Keyed env w) (hno : ¬ ValidHash key) (hl : l ≠ .delete key)
    (h : w.step env l = some w') :
    (w.veil key value).step env l = some (w'.veil key value) := by
  have hne : ∀ {r call}, call ∈ w.pending r → call.key ≠ key :=
    fun hmem heq => hno (heq ▸ hw.pending hmem)
  cases step_cases h with
  | tick d => rfl
  | arrive ht | answer ht | call ht | deliver ht | cancelReady ht | cancelCalling ht
  | cancelServed ht =>
    simp only [step, veil, ht]
    rfl
  | @act r e k cache resp ht hlocal =>
    cases e with
    | s3 call => cases hlocal
    | _ =>
      simp only [step, veil, ht, hlocal]
      rfl
  | @wait r e k cache ht hlocal =>
    cases e with
    | s3 call => cases hlocal
    | _ =>
      simp only [step, veil, ht, hlocal]
      rfl
  | served ht hf =>
    have hcall := hne (mem_pending_of_calling ht)
    simp only [step, veil, ht, hf, if_true, Bucket.reply_setObject hcall,
      Bucket.apply_setObject hcall]
    rfl
  | failed ht hf =>
    have hcall := hne (mem_pending_of_calling ht)
    simp only [step, veil, ht, hf, Bool.false_eq_true, if_false, Bucket.reply_setObject hcall]
    rfl
  | @stray r call hp =>
    have hp' : call ∈ (w.veil key value).pending r := hp
    rw [step, if_pos hp']
    simp only [veil, Bucket.apply_setObject (hne hp)]
  | delete key' =>
    have hkey : key' ≠ key := fun heq => hl (heq ▸ rfl)
    simp only [step, veil, Bucket.setObject_comm hkey]

end World

namespace Deployment

variable {plan : Plan} {d d' : Deployment} {l : DeployLabel} {i : InstId}

/-! ## The requests behind the probes -/

/-- `main` puts nothing but the startup probe. -/
theorem put_of_after {cli : AwsCli} {h : List BootEvent} {bucket : String} {key : Hash}
    {body : Bytes} {k : Except PutFailure Unit → Boot (Except String S3Storage)}
    (hafter : Prog.After (boot cli) h (.act (.putObject bucket key body) k)) :
    key = probeKey ∧ body = startupBody := by
  obtain ⟨-, hprobe, -⟩ := (Prog.wp_after (booting_unpromising _) (boot_booting _) hafter).1
  injection hprobe with _ hkey hbody
  exact ⟨hkey, hbody⟩

theorem Follows.puts (hd : Follows plan d) {bucket : String} {key : Hash} {body : Bytes}
    {k : Except PutFailure Unit → Boot (Except String S3Storage)}
    (hstage : d.stages i = .booting (.act (.putObject bucket key body) k)) :
    key = probeKey ∧ body = startupBody := by
  have hi := hd i
  rw [hstage] at hi
  exact put_of_after hi

theorem Follows.putting (hd : Follows plan d) {bucket : String} {key : Hash} {body : Bytes}
    {reply : Option (Except PutFailure Unit)}
    {k : Except PutFailure Unit → Boot (Except String S3Storage)}
    (hstage : d.stages i = .putting bucket key body reply k) :
    key = probeKey ∧ body = startupBody := by
  have hi := hd i
  rw [hstage] at hi
  exact put_of_after hi

/-- What keeps the probes of a deployment apart from its requests. -/
structure Contained [RustChar] (plan : Plan) (d : Deployment) : Prop where
  keyed : World.Keyed plan.env d.world
  follows : Follows plan d
  punctual : Punctual d
  asked : ∀ put ∈ d.asked, put = (probeKey, startupBody)

/-- The label of a request that does not touch the probe object. -/
def shownLabel : DeployLabel → Option Label
  | .request l => if l = .delete probeKey then none else some l
  | _ => none

variable [RustChar]

theorem contained_init {objects : Hash → Option Bytes} : Contained plan (init objects) where
  keyed := World.keyed_init
  follows := follows_init
  punctual := punctual_init
  asked _ hmem := by cases hmem

/-- Startup probes and self-probes keep to their object. -/
theorem Contained.step (hd : Contained plan d) (h : d.step plan l = some d') :
    Contained plan d' where
  keyed := by
    rcases world_of_step h with ⟨l', -, hw⟩ | ⟨bucket, hw⟩
    · exact hd.keyed.step hw
    · rw [hw]
      exact ⟨hd.keyed.tracks, hd.keyed.called, hd.keyed.pending⟩
  follows := hd.follows.step h
  punctual := hd.punctual.step h
  asked := by
    cases step_cases h with
    | puts hstage =>
      intro put hmem
      rcases List.mem_cons.mp hmem with rfl | hold
      · obtain ⟨rfl, rfl⟩ := hd.follows.puts hstage
        rfl
      · exact hd.asked put hold
    | _ => exact hd.asked

/-- A step that is not a request's changes at most the probe object. -/
theorem Contained.hides (hd : Contained plan d) (h : d.step plan l = some d')
    (hl : shownLabel l = none) (value : Option Bytes) :
    d'.world.veil probeKey value = d.world.veil probeKey value := by
  have hput : ∀ bytes : Option Bytes, ({ d.world with
      bucket := d.world.bucket.setObject probeKey bytes } : World).veil probeKey value =
        d.world.veil probeKey value := by
    intro bytes
    simp only [World.veil, Bucket.setObject_setObject]
  cases step_cases h with
  | @request l world hadmits hstep =>
    rw [shownLabel] at hl
    split at hl
    next hdelete =>
      subst hdelete
      cases hstep
      exact hput none
    next => cases hl
  | putServed hstage =>
    obtain ⟨rfl, rfl⟩ := hd.follows.putting hstage
    exact hput _
  | late hasked =>
    obtain ⟨rfl, rfl⟩ := Prod.mk.inj (hd.asked _ hasked)
    exact hput _
  | probeServed hstage _ =>
    exact congrArg (fun bucket => World.veil probeKey value { d.world with bucket := bucket })
      (hd.punctual.looks hstage plan.eTagOf)
  | _ => rfl

/-- **The deployment refines the requests.** Without the probe object, which no
request sees, a run of a deployment is the run of its requests, each arriving at
an instance with a fit configuration. What is left out with the object is what
boots and self-probes do, and deletions of the object from outside. -/
theorem refines (hascii : RustChar.OnAscii) {ok : Deployment → DeployLabel → Prop}
    {objects : Hash → Option Bytes} {ls : List DeployLabel}
    (hrun : Run (step plan) ok (init objects) ls d) :
    Run (World.step plan.env) (fun _ l => ∀ r, l = .arrive r → Fit (plan.cli (plan.inst r)))
      (World.init objects) (ls.filterMap shownLabel)
      (d.world.veil probeKey (objects probeKey)) := by
  have hno : ¬ ValidHash probeKey :=
    fun hvalid => (validHash_iff.mp hvalid).ne_probeKey hascii rfl
  have hinit : (init objects).world.veil probeKey (objects probeKey) = World.init objects := by
    simp [init, World.veil, World.init, Bucket.setObject]
  rw [← hinit]
  refine hrun.refine (fun d => d.world.veil probeKey (objects probeKey)) shownLabel
    (fun _ _ _ hd _ h => hd.step h) ?_ (fun _ _ _ hd _ h hl => hd.hides h hl _) contained_init
  intro d l d' l' hd _ h hl
  cases step_cases h with
  | @request l world hadmits hstep =>
    rw [shownLabel] at hl
    split at hl
    next => cases hl
    next hdelete =>
      cases hl
      refine ⟨?_, World.step_veil hd.keyed hno hdelete hstep⟩
      intro r harrive
      subst harrive
      have hlistening : (d.stages (plan.inst r)).listening = true := hadmits
      unfold Stage.listening at hlistening
      split at hlistening
      next hstage => exact (hd.follows.running hstage).1
      next => cases hlistening
  | _ => cases hl

omit [RustChar] in
/-- A request of a deployment whose startup probe has been taken is one on an empty
bucket. -/
theorem exampleStart_shown : @RustChar.OnAscii latinChars ∧
    ∃ d, Run (@Deployment.step latinChars (examplePlan [])) (fun _ _ => True)
        (init fun _ => none) (exampleStart ++ [.request (.arrive 0)]) d ∧
      d.world.bucket.objects probeKey = some startupBody ∧
      Run (@World.step latinChars (examplePlan []).env)
        (fun _ l => ∀ r, l = .arrive r → Fit exampleCli)
        (World.init fun _ => none) [.arrive 0] (d.world.veil probeKey none) := by
  let _ : RustChar := latinChars
  obtain ⟨d, hrun, hobject⟩ : ∃ d, Run (Deployment.step (examplePlan [])) (fun _ _ => True)
      (init fun _ => none) (exampleStart ++ [.request (.arrive 0)]) d ∧
      d.world.bucket.objects probeKey = some startupBody :=
    exists_run_of_exec (fun _ _ _ => trivial)
      (show (exec _ (fun _ _ => true) _ _).any _ = true by decide)
  exact ⟨latinChars_onAscii, d, hrun, hobject, refines latinChars_onAscii hrun⟩

end Deployment

end NxCacheServer.System
