import NxCacheServer.System.Serving

/-!
# One request at a time

Requests come to one instance one at a time, and objects are deleted between
requests only; S3 answers every request, and any time may pass. Then the server
is the map of `Env.handle`: it goes from rest to rest, each request is answered
as the map answers it, and the objects are the map again.

The map handles a request when it comes, and the server later, in many steps. So the
invariant of a run, `Follows`, has two cases: the server is where the map is, or it is
serving the request that the map has handled last. `Concluded` is how the second ends
in the first, by the outcome of the request.

Each kind of request has a lemma about how it concludes: `concluded_refused`,
`concluded_reader`, `concluded_writer`. That the server comes to an answer at all is
`Follows.finishes`, with the same notion of a request that is taken along as for
racing writers (`Driving`).
-/

namespace NxCacheServer.System

open NxCacheServer.Domain NxCacheServer.Infra NxCacheServer.Server NxCacheServer.Lib

namespace World

/-! ## Requests that take turns -/

/-- Every request that has come is answered. -/
def Quiet (w : World) : Prop := ∀ entry ∈ w.trace, (w.tasks entry.req).response.isSome = true

instance (w : World) : Decidable w.Quiet :=
  inferInstanceAs (Decidable (∀ entry ∈ w.trace, (w.tasks entry.req).response.isSome = true))

/-- A request comes, and an object is deleted, only when no request is being
served; S3 answers. -/
def OneAtATime (w : World) : Label → Prop
  | .arrive _ => w.Quiet
  | .delete _ => w.Quiet
  | l => l.ErrorFree

instance (w : World) : DecidablePred (OneAtATime w) := fun l =>
  match l with
  | .arrive _ => inferInstanceAs (Decidable w.Quiet)
  | .delete _ => inferInstanceAs (Decidable w.Quiet)
  | .tick d => inferInstanceAs (Decidable (Label.tick d).ErrorFree)
  | .run r => inferInstanceAs (Decidable (Label.run r).ErrorFree)
  | .serve r fate => inferInstanceAs (Decidable (Label.serve r fate).ErrorFree)
  | .deliver r => inferInstanceAs (Decidable (Label.deliver r).ErrorFree)
  | .cancel r => inferInstanceAs (Decidable (Label.cancel r).ErrorFree)
  | .stray r call => inferInstanceAs (Decidable (Label.stray r call).ErrorFree)

/-- What the client of `r` was answered. -/
def answer (w : World) (r : ReqId) : Option Answer := (w.tasks r).response.map Response.answer

variable [RustChar] {env : Env} {initial : Hash → Option Bytes} {w w' : World} {l : Label}
  {q r : ReqId} {i : InstId} {map : WriteOnce Hash Bytes} {key : Hash}

/-! ## From rest to rest -/

namespace Resting

variable (hw : Resting env initial i map w)

include hw

/-- A request that comes while all rest is the one that is served. -/
theorem arrive (hinst : env.inst q = i) (h : w.step env (.arrive q) = some w') :
    Serving env initial i map q w' := by
  have hsmooth := hw.smooth.step h trivial
  have hlinked := hw.linked.step h
  cases step_cases h with
  | arrive htask =>
    have hsession : World.session env ((w.setTask q (.ready (env.serve q))).record q .arrived) q =
        Session.start := by
      rw [session_record_arrived, session_setTask, hw.linked.tracks.session_absent htask]
    -- a request that has just come has written nothing
    have hnot : ¬ Landed env ((w.setTask q (.ready (env.serve q))).record q .arrived) q := by
      intro hq
      rcases hq with hwrote | ⟨_, _, _, _, _, hcalling, -⟩
      · rw [hsession] at hwrote
        cases hwrote
      · simp at hcalling
    refine ⟨hsmooth, hlinked, hinst, ?_, fun _ => hw.callers _, ?_, ?_, fun _ => hw.objects,
      fun hq => absurd hq hnot, ?_, ?_, ?_, ?_⟩
    · intro r hr
      unfold Idle
      simp only [tasks_record, tasks_setTask, if_neg hr]
      exact hw.idle r
    · exact ⟨⟨_, List.mem_cons_self, rfl⟩, by simp, by simp⟩
    · intro hslot
      rw [hsession] at hslot
      exact absurd rfl hslot
    · intro call since reply k hcalling
      simp at hcalling
    · intro key _
      rw [hsession]
      exact knows_start
    · intro s hreach hv
      rcases hreach with ⟨key, hentry⟩ | ⟨phase, hc, -⟩
      -- at rest the map of the cache is all that can be reached
      · have hhash : ((w.caches i).arena s).hash = key := (hw.linked.wf i).entry_hash hentry
        simp only [caches_record, caches_setTask, hhash]
        exact hw.cells hentry hv
      · rw [caches_record, caches_setTask, hw.callers q] at hc
        cases hc
    · intro key s _ hmarked
      rw [hsession] at hmarked
      cases hmarked

/-- Nothing is asked of S3 at rest, so nothing else can happen to the bucket. -/
theorem delete (h : w.step env (.delete key) = some w') :
    Resting env initial i (map.delete key) w' := by
  have hsmooth := hw.smooth.step h trivial
  have hlinked := hw.linked.step h
  cases step_cases h with
  | delete key =>
    refine ⟨hsmooth, hlinked, hw.idle, hw.callers, ?_, ?_⟩
    · rw [← hw.objects]
      rfl
    · intro key' s hentry hv
      exact WriteOnce.delete_eq_none (hw.cells hentry hv)

/-- At rest time passes, and that is all. -/
theorem tick (h : w.step env l = some w') (hl : l.ErrorFree) (hkeeps : l.Keeps)
    (harrive : ∀ r, l ≠ .arrive r) : Resting env initial i map w' ∧ w'.tasks = w.tasks := by
  have hsmooth := hw.smooth.step h hl
  have hlinked := hw.linked.step h
  cases step_cases h with
  | tick d => exact ⟨⟨hsmooth, hlinked, hw.idle, hw.callers, hw.objects, hw.cells⟩, rfl⟩
  | arrive htask => exact absurd rfl (harrive _)
  | delete key => exact absurd hkeeps not_false
  | stray hp => exact absurd hl not_false
  | answer htask | call htask | act htask | wait htask | cancelReady htask =>
    exact absurd htask (hw.idle _).not_ready
  | served htask | failed htask | deliver htask | cancelCalling htask | cancelServed htask =>
    exact absurd htask (hw.idle _).not_calling

end Resting

/-- The response, the objects and the cache are as the map has it. -/
structure Concluded (i : InstId) (outcome : Answer × WriteOnce Hash Bytes) (response : Response)
    (w : World) : Prop where
  answer : response.answer = outcome.1
  objects : w.bucket.objects = outcome.2
  cells : ∀ {key s}, (w.caches i).entry key = some s → (w.caches i).value s = some false →
    outcome.2 key = none

namespace Serving

variable (hw : Serving env initial i map q w) {response : Response}

include hw

/-- Whoever is answered has left its cache. -/
theorem caller_none (hans : w.tasks q = .answered response) : (w.caches i).caller q = none := by
  cases hc : (w.caches i).caller q with
  | none => rfl
  | some phase =>
    have hstands := hw.linked.inside (r := q) (by rw [hw.inst]; exact hc)
    obtain ⟨inner, -, hends⟩ := hw.linked.tracks.ends (Or.inl hans)
    rw [hstands.role] at hends
    obtain ⟨hpermit, hends⟩ := hends
    have hprobe := hstands.probe hpermit
    -- still inside, it cannot have fetched the object
    have hgot : (w.session env q).got = none := by
      by_contra hgot
      rcases found_before_got hw.linked.tracks hstands.role hgot with h | h
      · rw [hstands.shared] at h
        cases h
      · rw [hprobe] at h
        cases h
    rcases hends with ⟨body, h, -⟩ | ⟨-, (h | ⟨err, h⟩) | ⟨err, h⟩⟩
    · rw [hgot] at h
      cases h
    · rw [hstands.shared] at h
      cases h
    · rw [hprobe] at h
      cases h
    · rw [hgot] at h
      cases h

/-- The map says *absent* only of objects that were not there when `q` came. -/
theorem entries {s : SlotId} (hentry : (w.caches i).entry key = some s)
    (hv : (w.caches i).value s = some false) : map key = none := by
  rw [← (hw.linked.wf i).entry_hash hentry]
  exact hw.cells (Or.inl ⟨key, hentry⟩) hv

/-- A request that has written nothing leaves everything as it was. -/
theorem concluded_unwritten (hnot : ¬ Landed env w q) {answer : Answer}
    (hanswer : response.answer = answer) : Concluded i (answer, map) response w :=
  ⟨hanswer, hw.unwritten hnot, hw.entries⟩

theorem not_landed_of_role (hrole : ∀ key, env.role q ≠ .writer key) : ¬ Landed env w q := by
  intro hq
  obtain ⟨key, h, -⟩ := hw.written hq
  exact hrole key h

omit hw in
/-- A request that was answered has written if it knows it has. -/
theorem landed_iff_of_answered (hans : w.tasks q = .answered response) :
    Landed env w q ↔ (w.session env q).wrote = true := by
  refine ⟨?_, Or.inl⟩
  intro hq
  rcases hq with hwrote | ⟨_, _, _, _, _, htask, -⟩
  · exact hwrote
  · rw [hans] at htask
    cases htask

theorem concluded_refused {answer : Response} (hrole : env.role q = .refused answer)
    (hans : w.tasks q = .answered response) : Concluded i (env.handle q map) response w := by
  obtain ⟨inner, rfl, hends⟩ := hw.linked.tracks.ends (Or.inl hans)
  rw [hrole] at hends
  have heq : inner = answer := hends
  rw [Env.handle_refused hrole]
  refine hw.concluded_unwritten (hw.not_landed_of_role (by simp [hrole])) ?_
  rw [answer_finalize, heq, Env.body_refused hrole, ite_self]

/-- A reader is told what the map has, and changes nothing. -/
theorem concluded_reader (hrole : env.role q = .reader key)
    (hans : w.tasks q = .answered response) : Concluded i (env.handle q map) response w := by
  have hkey : (env.role q).key = some key := by rw [hrole]; rfl
  have hknows := hw.knows hkey
  have hnot := hw.not_landed_of_role (by simp [hrole])
  obtain ⟨inner, rfl, hends⟩ := hw.linked.tracks.ends (Or.inl hans)
  rw [hrole] at hends
  -- three ways to a 404, and one answer of the map
  have hmissing : map key = none → inner = plainText 404 "The record was not found" →
      Concluded i (env.handle q map) (finalize (env.request q) inner) w := by
    intro hnone hinner
    rw [Env.handle_missing hrole hnone]
    refine hw.concluded_unwritten hnot ?_
    rw [answer_finalize, hinner]
    exact congrArg _ (ite_self _)
  obtain ⟨-, ⟨body, hgot, rfl⟩ | ⟨hinner, (hshared | habsent) | ⟨err, hgot⟩⟩⟩ := hends
  · obtain ⟨hbound, hwhole⟩ := hknows.fetched hgot
    rw [Env.handle_found hrole hbound]
    refine hw.concluded_unwritten hnot ?_
    rw [answer_finalize]
    obtain ⟨bytes, breaksAt⟩ := body
    cases hwhole
    rfl
  · exact hmissing (hknows.shared hshared) hinner
  · exact hmissing (hknows.unbound habsent) hinner
  · exact hmissing (hknows.gone hgot) hinner

/-- A writer binds the key, or is told that it is bound. -/
theorem concluded_writer (hrole : env.role q = .writer key)
    (hans : w.tasks q = .answered response) : Concluded i (env.handle q map) response w := by
  have hkey : (env.role q).key = some key := by rw [hrole]; rfl
  have hknows := hw.knows hkey
  have hlanded : Landed env w q ↔ _ := landed_iff_of_answered hans
  obtain ⟨inner, rfl, hends⟩ := hw.linked.tracks.ends (Or.inl hans)
  rw [hrole] at hends
  have hanswer : ∀ {status message}, inner = textReply status message ∨
      inner = plainText status message →
      (finalize (env.request q) inner).answer = ⟨status, none⟩ := by
    intro status message hinner
    rw [answer_finalize]
    rcases hinner with rfl | rfl <;> exact congrArg _ (ite_self _)
  rw [Env.handle_put hrole]
  rcases hends with ⟨hprobe, -, rfl⟩ | ⟨habsent, hwrote, hmarked, rfl⟩ |
    ⟨habsent, hwrote, hbroken, rfl⟩ | ⟨-, -, hfailed, -⟩
  · -- the object was there
    rw [if_pos (hknows.bound hprobe)]
    refine hw.concluded_unwritten ?_ (hanswer (Or.inl rfl))
    intro hq
    obtain ⟨err, habsent⟩ := absent_of_wrote hw.linked.tracks hrole (hlanded.mp hq)
    rw [hprobe] at habsent
    cases habsent
  · -- it was not, and `q` has written it
    obtain ⟨key', hrole', hc, hobjects⟩ := hw.written (hlanded.mpr hwrote)
    rw [hrole] at hrole'
    cases hrole'
    have hnone := hknows.unbound habsent
    rw [if_neg (by simp [hnone]), if_pos hc]
    refine ⟨hanswer (Or.inl rfl), ?_, ?_⟩
    · rw [hobjects, WriteOnce.put_of_unbound hnone]
    · intro key' s hentry hv
      refine WriteOnce.put_eq_none.mpr ⟨hw.entries hentry hv, ?_⟩
      intro heq
      subst heq
      exact hw.marked hrole hmarked hentry hv
  · -- its body broke off
    rw [if_neg (by simp [hknows.unbound habsent]), if_neg (by simp [hbroken])]
    refine hw.concluded_unwritten ?_ (hanswer (Or.inr rfl))
    rw [hlanded, hwrote]
    exact Bool.false_ne_true
  · rw [(hw.smooth.sessions q).failed] at hfailed
    cases hfailed

theorem concluded (hans : w.tasks q = .answered response) :
    Concluded i (env.handle q map) response w := by
  cases hrole : env.role q with
  | writer key => exact hw.concluded_writer hrole hans
  | reader key => exact hw.concluded_reader hrole hans
  | refused answer => exact hw.concluded_refused hrole hans

/-- An instance is at rest when its request is answered. -/
theorem rest (hans : w.tasks q = .answered response) :
    Resting env initial i (env.handle q map).2 w where
  smooth := hw.smooth
  linked := hw.linked
  idle r := by
    by_cases hr : r = q
    · exact Or.inr ⟨response, by rw [hr, hans]⟩
    · exact hw.idle hr
  callers r := by
    by_cases hr : r = q
    · rw [hr]
      exact hw.caller_none hans
    · exact hw.callers hr
  objects := (hw.concluded hans).objects
  cells := (hw.concluded hans).cells

end Serving

/-! ## Whole runs -/

/-- After `ls` the server is where the map is; a request that is being served
counts as handled when it came. -/
def Follows (env : Env) (initial : Hash → Option Bytes) (i : InstId) (ls : List Label)
    (w : World) : Prop :=
  (Resting env initial i (Spec.run env initial ls).map w ∧
    ∀ r, w.answer r = (Spec.run env initial ls).answers r) ∨
  ∃ q map, Serving env initial i map q w ∧
    (Spec.run env initial ls).map = (env.handle q map).2 ∧
    (Spec.run env initial ls).answers q = some (env.handle q map).1 ∧
    ∀ r, r ≠ q → w.answer r = (Spec.run env initial ls).answers r

theorem follows_init : Follows env initial i [] (init initial) := by
  refine Or.inl ⟨?_, fun _ => rfl⟩
  exact ⟨smooth_init, linked_init, fun _ => Or.inl rfl, fun _ => rfl, rfl, fun h => by cases h⟩

namespace Follows

variable {ls : List Label} (hw : Follows env initial i ls w)

include hw

/-- Where it is quiet, the map and all answers are the same. -/
theorem resting (hquiet : w.Quiet) : Resting env initial i (Spec.run env initial ls).map w ∧
    ∀ r, w.answer r = (Spec.run env initial ls).answers r := by
  rcases hw with hrest | ⟨q, map, hserving, hmap, hanswer, hothers⟩
  · exact hrest
  · obtain ⟨⟨entry, hmem, hreq⟩, -⟩ := hserving.arrived
    -- `q` has come, so where it is quiet it is answered
    obtain ⟨response, hresponse⟩ := Option.isSome_iff_exists.mp (hquiet entry hmem)
    rw [hreq] at hresponse
    have hans := Task.response_eq_some.mp hresponse
    refine ⟨by rw [hmap]; exact hserving.rest hans, ?_⟩
    intro r
    by_cases hr : r = q
    · rw [hr, hanswer, answer, hresponse]
      exact congrArg some (hserving.concluded hans).answer
    · exact hothers r hr

/-- A step of a request, or of time. -/
theorem step_within (h : w.step env l = some w') (hl : l.ErrorFree) (hkeeps : l.Keeps)
    (harrive : ∀ r, l ≠ .arrive r)
    (hspec : Spec.run env initial (ls ++ [l]) = Spec.run env initial ls) :
    Follows env initial i (ls ++ [l]) w' := by
  unfold Follows
  rw [hspec]
  rcases hw with ⟨hrest, hanswers⟩ | ⟨q, map, hserving, hmap, hanswer, hothers⟩
  · obtain ⟨hrest', htasks⟩ := hrest.tick h hl hkeeps harrive
    refine Or.inl ⟨hrest', ?_⟩
    intro r
    rw [answer, htasks]
    exact hanswers r
  · -- the map has moved when `q` came: now the server catches up
    refine Or.inr ⟨q, map, hserving.step h hl hkeeps harrive, hmap, hanswer, ?_⟩
    intro r hr
    rw [answer, (hserving.idle hr).stays h hl (harrive r)]
    exact hothers r hr

/-- The run follows the map through one step more. -/
theorem step (hinst : ∀ r, env.inst r = i) (h : w.step env l = some w')
    (hl : OneAtATime w l) : Follows env initial i (ls ++ [l]) w' := by
  cases l with
  | arrive q =>
    obtain ⟨hrest, hanswers⟩ := hw.resting hl
    refine Or.inr ⟨q, _, hrest.arrive (hinst q) h, ?_, ?_, ?_⟩
    · rw [Spec.run_snoc]
      rfl
    · rw [Spec.run_snoc]
      exact Function.update_self ..
    · intro r hr
      have hne : Label.arrive q ≠ .arrive r := by
        intro heq
        injection heq with heq
        exact hr heq.symm
      rw [Spec.run_snoc, answer, (hrest.idle r).stays h trivial hne]
      exact (hanswers r).trans (Function.update_of_ne hr ..).symm
  | delete key =>
    obtain ⟨hrest, hanswers⟩ := hw.resting hl
    unfold Follows
    rw [Spec.run_snoc]
    refine Or.inl ⟨hrest.delete h, ?_⟩
    intro r
    rw [answer, (hrest.idle r).stays h trivial (by simp)]
    exact hanswers r
  | tick d => exact hw.step_within h trivial trivial (by simp) Spec.run_snoc
  | run r => exact hw.step_within h trivial trivial (by simp) Spec.run_snoc
  | serve r fate => exact hw.step_within h hl trivial (by simp) Spec.run_snoc
  | deliver r => exact hw.step_within h trivial trivial (by simp) Spec.run_snoc
  | cancel r => exact absurd hl not_false
  | stray r call => exact absurd hl not_false

end Follows

/-! ## No request waits for another -/

/-- Alone in its cache, a reader gets its turn at once. -/
theorem Serving.enabled (hw : Serving env initial i map q w) {e : Act}
    {k : e.Resp → Async Response} (htask : w.tasks q = .ready (.act e k)) (he : Immediate e) :
    ∃ cache resp, localStep (w.caches (env.inst q)) q w.clock e = some (cache, some resp) := by
  have ha := hw.linked.tracks.allows htask
  rw [hw.inst]
  -- what its session still needs, its phase in the cache provides
  have hphase : (w.session env q).slot ≠ none → (w.session env q).permit = true ∨
      (w.session env q).shared = none ∧ (w.session env q).probe = none →
      ∃ phase, (w.caches i).caller q = some phase ∧
        phase.probingSince.isSome = (w.session env q).permit := by
    intro hslot hopen
    obtain ⟨phase, hc⟩ := Option.ne_none_iff_exists'.mp (hw.inside hslot hopen)
    refine ⟨phase, hc, ?_⟩
    rw [← hw.inst] at hc
    exact (hw.linked.inside hc).permit.symm
  cases e with
  | s3 call => exact absurd he not_false
  | read ready item => exact absurd he not_false
  | acquire s =>
    obtain ⟨hslot, hpermit, hshared, hprobe⟩ := allows_acquire ha
    obtain ⟨phase, hc, hidle⟩ := hphase (by simp [hslot]) (Or.inr ⟨hshared, hprobe⟩)
    rw [hpermit] at hidle
    obtain ⟨cache, a, hpoll⟩ := (hw.linked.wf i).poll_alone hw.callers hc
      (by simpa using hidle) w.clock
    exact ⟨cache, a, by simp only [localStep, hpoll]⟩
  | settle s value =>
    obtain ⟨hslot, hpermit, -⟩ := allows_settle ha
    obtain ⟨phase, hc, hprobing⟩ := hphase (by simp [hslot]) (Or.inl hpermit)
    rw [hpermit] at hprobing
    cases phase with
    | probing s' since => exact ⟨_, (), by simp only [localStep, ProbeCache.finish, hc]; rfl⟩
    | holding s' => cases hprobing
    | queued s' => cases hprobing
  | _ => exact ⟨_, _, rfl⟩

/-- The request that is served waits for nobody else. -/
theorem driving_serving : Driving env q (Serving env initial i map q) where
  step {w w' l} hw h hl := by
    cases l with
    | tick d => exact hw.step h trivial trivial (by simp)
    | run r => exact hw.step h trivial trivial (by simp)
    | serve r fate => exact hw.step h hl.2 trivial (by simp)
    | deliver r => exact hw.step h trivial trivial (by simp)
    | _ => exact absurd hl not_false
  enabled hw htask he := hw.enabled htask he

theorem Follows.finishes {ls : List Label} (hw : Follows env initial i ls w)
    (harrived : w.tasks q ≠ .absent) : Finishes env w q := by
  have hidle : w.Idle q → Finishes env w q := by
    intro hq
    rcases hq with habsent | ⟨response, hans⟩
    · exact absurd habsent harrived
    · exact ⟨[], w, response, .nil, hans⟩
  rcases hw with ⟨hrest, -⟩ | ⟨q', map, hserving, -⟩
  · exact hidle (hrest.idle q)
  · by_cases hq : q = q'
    · subst hq
      exact driving_serving.finishes hserving harrived hserving.arrived.2.2
    · exact hidle (hserving.idle hq)

/-! ## The refinement -/

/-- **Sequential refinement.** Requests that come one at a time to one instance
are answered as the map answers them, whatever time passes and whatever is
deleted between them, and the objects are the map. Every request that has come
is answered if it is taken along. -/
theorem sequential_refinement {objects : Hash → Option Bytes} {ls : List Label}
    (hinst : ∀ r, env.inst r = i)
    (hrun : Run (World.step env) OneAtATime (init objects) ls w) :
    (∀ q, w.tasks q ≠ .absent → Finishes env w q) ∧
    (w.Quiet → w.bucket.objects = (Spec.run env objects ls).map ∧
      ∀ r, w.answer r = (Spec.run env objects ls).answers r) := by
  -- the invariant is kept by every label, each with its own step of the map
  have hw : Follows env objects i ls w :=
    hrun.invariant_labels (fun _ _ _ _ hw hl h => hw.step hinst h hl) follows_init
  refine ⟨fun q harrived => hw.finishes harrived, ?_⟩
  intro hquiet
  obtain ⟨hrest, hanswers⟩ := hw.resting hquiet
  exact ⟨hrest.objects, hanswers⟩

private def lifecycleEnv : Env :=
  exampleEnv [(0, exampleGet), (0, examplePut [1, 2, 3]), (0, examplePut [4])]

/-- A GET that looks for the object, in vain. -/
def miss (r : ReqId) : List Label :=
  [.arrive r, .run r, .run r, .run r, .run r, .serve r .answer, .deliver r, .run r, .run r]

/-- A PUT of an object that is not there. -/
def fill (r : ReqId) : List Label :=
  [.arrive r, .run r, .serve r .answer, .deliver r, .run r, .run r, .run r, .serve r .answer,
    .deliver r, .run r, .run r, .run r]

/-- A GET that is told by the cache that the object is there. -/
def fetch (r : ReqId) : List Label :=
  [.arrive r, .run r, .run r, .run r, .run r, .serve r .answer, .deliver r, .run r]

/-- A miss, a PUT and a hit; then the object is deleted, and the next GET finds
that out from S3; then it is put again. -/
def lifecycle : List Label :=
  miss 0 ++ fill 1 ++ fetch 3 ++ [.delete "abc"] ++ fetch 4 ++ fill 2 ++ fetch 5

omit [RustChar] in
theorem lifecycle_answers :
    ∃ w, Run (@World.step asciiChars lifecycleEnv) OneAtATime (init fun _ => none) lifecycle w ∧
      w.answer 3 = some ⟨200, some [1, 2, 3]⟩ ∧ w.answer 4 = some ⟨404, none⟩ ∧
      w.answer 5 = some ⟨200, some [4]⟩ := by
  obtain ⟨w, hrun, hquiet⟩ : ∃ w, Run (@World.step asciiChars lifecycleEnv) OneAtATime
      (init fun _ => none) lifecycle w ∧ w.Quiet :=
    exists_run_of_exec (fun _ _ h => of_decide_eq_true h)
      (show (exec _ (fun w l => decide (OneAtATime w l)) _ _).any _ = true by decide)
  let _ : RustChar := asciiChars
  have hinst : ∀ r, lifecycleEnv.inst r = 0 := by
    intro r
    match r with
    | 0 | 1 | 2 => rfl
    | r + 3 => rfl
  have hanswers := ((sequential_refinement hinst hrun).2 hquiet).2
  refine ⟨w, hrun, (hanswers 3).trans ?_, (hanswers 4).trans ?_, (hanswers 5).trans ?_⟩ <;> decide

end World

end NxCacheServer.System
