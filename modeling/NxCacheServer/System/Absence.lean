import NxCacheServer.Lib.Past
import NxCacheServer.System.Staleness
import NxCacheServer.System.Waiting

/-!
# How old an absence can be

A GET that is answered 404 without an error of S3 rests on a moment at which S3
has looked and the object was not there: a look of its own, or one of another
request of its instance, through the cell they share. The cell was live when the
GET was given it, and S3 looked only after the cell had been made, so that moment
is less than `UNRESOLVED_TTL` before the arrival of the GET, or after it.

This needs no assumption on how long a request to S3 takes, on deletions or on
clients that go away: a late reply is as old as its cell at most.

The statements about fresh reads bound how old an answer is with a timeout for S3;
this one does without. It uses that a probe looks after its slot was made, that a
slot is given out only while it is live, and that both instants are on the clock of
the world.
-/

namespace NxCacheServer.System

open NxCacheServer.Domain NxCacheServer.Infra NxCacheServer.Server NxCacheServer.Lib

namespace World

variable [RustChar] {env : Env} {ok : World → Label → Prop} {objects : Hash → Option Bytes}
  {w w' : World} {l : Label} {ls : List Label} {i : InstId} {r : ReqId} {key : Hash} {t : Instant}
  {s : SlotId}

/-- At `t` or later, the object of `key` was not there. -/
def Missed (env : Env) (ok : World → Label → Prop) (objects : Hash → Option Bytes)
    (ls : List Label) (w : World) (key : Hash) (t : Instant) : Prop :=
  Took (World.step env) ok (init objects) ls w fun u _ _ =>
    u.bucket.objects key = none ∧ t ≤ u.clock

/-! ## Arrivals -/

/-- `r` arrived at `t`. -/
def Came (w : World) (r : ReqId) (t : Instant) : Prop := ⟨t, r, .arrived⟩ ∈ w.trace

instance (w : World) (r : ReqId) (t : Instant) : Decidable (Came w r t) :=
  inferInstanceAs (Decidable (_ ∈ w.trace))

/-- An arrival is from before, or it happens now. -/
theorem Came.origin (h : w.step env l = some w') (hcame : Came w' r t) :
    Came w r t ∨ t = w.clock ∧ w.tasks r = .absent := by
  rcases trace_of_step h with heq | ⟨q, event, heq, hoccurs⟩
  · unfold Came at hcame
    rw [heq] at hcame
    exact Or.inl hcame
  · unfold Came at hcame
    rw [heq] at hcame
    rcases List.mem_cons.mp hcame with hnew | hold
    · injection hnew with htime hreq hevent
      subst hreq
      rw [← hevent] at hoccurs
      cases hoccurs with
      | arrived htask => exact Or.inr ⟨htime, htask⟩
    · exact Or.inl hold

/-! ## The invariant -/

/-- What is said or believed to be absent has been looked for, and not long ago. -/
structure Grounded (env : Env) (ok : World → Label → Prop) (objects : Hash → Option Bytes)
    (ls : List Label) (w : World) : Prop where
  linked : Linked env w
  came : ∀ {r t}, Came w r t → t ≤ w.clock
  /-- The look of a probe is younger than its slot. -/
  probes : ∀ {i r s since key}, (w.caches i).caller r = some (.probing s since) →
    (env.role r).key = some key → ¬ Late env w r →
    Missed env ok objects ls w key ((w.caches i).arena s).created
  values : ∀ {i s}, s < (w.caches i).fresh → (w.caches i).value s = some false →
    Missed env ok objects ls w ((w.caches i).arena s).hash ((w.caches i).arena s).created
  /-- A look of one's own is younger than one's arrival. -/
  own : ∀ {r key t}, (env.role r).key = some key → Came w r t → ¬ Late env w r →
    Missed env ok objects ls w key t
  stamp : ∀ {r t now}, (w.session env r).stamp = some now → Came w r t → t ≤ now
  /-- A caller arrived when its slot was live. -/
  callers : ∀ {r phase t}, (w.caches (env.inst r)).caller r = some phase → Came w r t →
    (w.caches (env.inst r)).value phase.slot ≠ some true →
    t < ((w.caches (env.inst r)).arena phase.slot).created + unresolvedTtl
  shared : ∀ {r key t}, env.role r = .reader key → (w.session env r).shared = some false →
    Came w r t → ∃ t', t < t' + unresolvedTtl ∧ Missed env ok objects ls w key t'

theorem grounded_init : Grounded env ok objects [] (init objects) where
  linked := linked_init
  came h := by cases h
  probes h := by cases h
  values h := absurd h (Nat.not_lt_zero _)
  own _ h := by cases h
  stamp h := by cases h
  callers h := by cases h
  shared _ h := by cases h

/-- A caller that waits for its cell has been told nothing. -/
theorem Linked.late_of_idle (hw : Linked env w) {phase : Phase}
    (hc : (w.caches i).caller r = some phase) (hidle : phase.probingSince = none) :
    Late env w r := by
  have hi : env.inst r = i := hw.inst_of_caller hc
  subst hi
  exact (hw.inside hc).late hw.tracks hidle

/-- Slots are made in the past. -/
theorem created_le_clock (hrun : Run (World.step env) ok (init objects) ls w)
    (hs : s < (w.caches i).fresh) :
    ((w.caches i).arena s).created ≤ w.clock := by
  obtain ⟨cls, done, hcls⟩ := cache_of_run hrun i
  exact CacheState.created_le_clock hcls hs

omit [RustChar] in
/-- A slot that is handed out is live or new. -/
theorem call_created {cache : ProbeCache} {now : Instant}
    (hv : (cache.call r key now).1.value (cache.call r key now).2 ≠ some true) :
    now < ((cache.call r key now).1.arena (cache.call r key now).2).created + unresolvedTtl := by
  unfold ProbeCache.call at hv ⊢
  rcases ProbeCache.slot_cases cache key now with ⟨s, -, hlive, heq⟩ | ⟨-, heq⟩
  · rw [heq] at hv ⊢
    rcases Slot.live_eq.mp hlive with ⟨-, hage⟩ | ⟨hvalue, -⟩ | ⟨-, hage⟩
    · exact hage
    · exact absurd hvalue hv
    · exact Nat.lt_of_lt_of_le hage (Nat.add_le_add_left (by decide) _)
  · rw [heq]
    simpa using (by decide : 0 < unresolvedTtl)

namespace Grounded

variable (hw : Grounded env ok objects ls w) (h : w.step env l = some w')

include hw h

/-- A request comes at the instant the clock shows. -/
theorem step_came (hcame : Came w' r t) : t ≤ w'.clock := by
  rcases hcame.origin h with hold | ⟨rfl, -⟩
  · exact Nat.le_trans (hw.came hold) (clock_of_step h)
  · exact clock_of_step h

section

variable (hrun : Run (World.step env) ok (init objects) ls w) (hok : ok w l)

include hrun hok

/-- A request that is told of an absence by this step is told so by S3, which
looks now. -/
theorem missed_of_told (hkey : (env.role r).key = some key) (hbefore : Late env w r)
    (hafter : ¬ Late env w' r)
    (ht : t ≤ w.clock) : Missed env ok objects (ls ++ [l]) w' key t := by
  refine .last hrun hok h ⟨?_, ht⟩
  by_contra hbound
  refine hafter (hbefore.step hw.linked.tracks ?_ hkey h)
  exact Option.isSome_iff_ne_none.mpr hbound

/-- A look that has found nothing was evaluated after its probe started, so after its
slot was made. -/
theorem step_probes {since : Instant} (hc : (w'.caches i).caller r = some (.probing s since))
    (hkey : (env.role r).key = some key)
    (htold : ¬ Late env w' r) :
    Missed env ok objects (ls ++ [l]) w' key ((w'.caches i).arena s).created := by
  have hcreated := (extends_of_step h i).created (s := s)
  rcases probing_of_step h hc with hbefore | ⟨-, phase, hphase, rfl, hidle⟩
  · have hlt := (hw.linked.wf i).caller_lt hbefore
    rw [hcreated hlt]
    by_cases hlate : Late env w r
    · exact hw.missed_of_told h hrun hok hkey hlate htold (created_le_clock hrun hlt)
    · exact (hw.probes hbefore hkey hlate).snoc hok h
  · have hlt := (hw.linked.wf i).caller_lt hphase
    rw [hcreated hlt]
    exact hw.missed_of_told h hrun hok hkey (hw.linked.late_of_idle hphase hidle) htold
      (created_le_clock hrun hlt)

omit hrun in
/-- A cell becomes *absent* through a probe that was told so. -/
theorem step_values (hs : s < (w'.caches i).fresh)
    (hv : (w'.caches i).value s = some false) :
    Missed env ok objects (ls ++ [l]) w' ((w'.caches i).arena s).hash
      ((w'.caches i).arena s).created := by
  have hextends := extends_of_step h i
  have hold : s < (w.caches i).fresh → (w.caches i).value s = some false →
      Missed env ok objects (ls ++ [l]) w' ((w'.caches i).arena s).hash
        ((w'.caches i).arena s).created := by
    intro hlt hv
    rw [hextends.hash hlt, hextends.created hlt]
    exact (hw.values hlt hv).snoc hok h
  cases cacheMoves_of_step h i with
  | stays hcache =>
    rw [hcache] at hs hv
    exact hold hs hv
  | @acts r e resp k hi htask hact =>
    rcases hact.value_cases hs hv with ⟨hlt, hv'⟩ | ⟨-, hno, -⟩ | ⟨⟨since, hc⟩, s', rfl⟩
    · exact hold hlt hv'
    · cases hno
    · subst hi
      have hlt : s < (w.caches (env.inst r)).fresh := (hw.linked.wf _).caller_lt hc
      have hrole := (hw.linked.inside hc).role
      rw [hextends.hash hlt, hextends.created hlt]
      refine (hw.probes hc (by rw [hrole]; rfl) ?_).snoc hok h
      intro hlate
      have hallows := hw.linked.tracks.allows htask
      rw [hrole] at hallows
      obtain ⟨-, -, reply, hreply, hverdict⟩ := hallows
      rw [Session.verdict_eq_false.mp hverdict.symm] at hreply
      exact hlate.probe hreply
  | cancels _ hcache =>
    rw [hcache, ProbeCache.value_cancel] at hv
    rw [hcache, ProbeCache.fresh_cancel] at hs
    exact hold hs hv

/-- It was evaluated after its request came, too. -/
theorem step_own (hkey : (env.role r).key = some key) (hcame : Came w' r t)
    (htold : ¬ Late env w' r) :
    Missed env ok objects (ls ++ [l]) w' key t := by
  rcases hcame.origin h with hold | ⟨rfl, htask⟩
  · by_cases hlate : Late env w r
    · exact hw.missed_of_told h hrun hok hkey hlate htold (hw.came hold)
    · exact (hw.own hkey hold hlate).snoc hok h
  · exact hw.missed_of_told h hrun hok hkey (late_of_absent hw.linked.tracks htask) htold
      (Nat.le_refl _)

end

/-- A timestamp is taken after the request has come. -/
theorem step_stamp {now : Instant} (hstamp : (w'.session env r).stamp = some now)
    (hcame : Came w' r t) : t ≤ now := by
  have hold : (w.session env r).stamp = some now → t ≤ now := by
    intro hstamp
    rcases hcame.origin h with hold | ⟨-, htask⟩
    · exact hw.stamp hstamp hold
    · rw [hw.linked.tracks.session_absent htask] at hstamp
      cases hstamp
  cases moves_of_step h r with
  | @acts e resp k cache htask hlocal _ hhist _ =>
    rw [session_snoc hhist] at hstamp
    rcases learn_stamp hstamp with hbefore | hev
    · exact hold hbefore
    · cases hev
      cases hlocal
      rcases hcame.origin h with hcame | ⟨rfl, -⟩
      · exact hw.came hcame
      · exact Nat.le_refl _
  | @delivers call since reply k htask _ hhist _ =>
    rw [session_snoc hhist] at hstamp
    rcases learn_stamp hstamp with hbefore | hev
    · exact hold hbefore
    · cases hev
  | stays _ hhist | arrives _ _ hhist | calls _ _ hhist | answers _ _ hhist | serves _ _ hhist
  | drops _ hhist =>
    rw [session_congr hhist] at hstamp
    exact hold hstamp

/-- The slot of a request was live when it took its timestamp: unless it has a value
it is not older than `UNRESOLVED_TTL`. -/
theorem step_callers {phase : Phase} (hc : (w'.caches (env.inst r)).caller r = some phase)
    (hcame : Came w' r t) (hv : (w'.caches (env.inst r)).value phase.slot ≠ some true) :
    t < ((w'.caches (env.inst r)).arena phase.slot).created + unresolvedTtl := by
  -- a caller has arrived before
  have hcame' : (∃ before, (w.caches (env.inst r)).caller r = some before) ∨
      w.tasks r ≠ .absent → Came w r t := by
    intro hin
    rcases hcame.origin h with hold | ⟨-, htask⟩
    · exact hold
    · rcases hin with ⟨before, hbefore⟩ | hin
      · have hslot := (hw.linked.inside hbefore).slot
        rw [hw.linked.tracks.session_absent htask] at hslot
        cases hslot
      · exact absurd htask hin
  have hold : ∀ {before}, (w.caches (env.inst r)).caller r = some before →
      before.slot = phase.slot →
      t < ((w'.caches (env.inst r)).arena phase.slot).created + unresolvedTtl := by
    intro before hbefore hslot
    have hlt := (hw.linked.wf _).caller_lt hbefore
    rw [← hslot] at hv ⊢
    rw [(extends_of_step h _).created hlt]
    exact hw.callers hbefore (hcame' (Or.inl ⟨before, hbefore⟩))
      fun htrue => hv (hw.linked.value_step h hlt htrue)
  cases cacheMoves_of_step h (env.inst r) with
  | stays hcache =>
    rw [hcache] at hc
    exact hold hc rfl
  | @acts r' e resp k hi htask hact =>
    rcases hact.caller_cases hc with ⟨before, hbefore, hslot⟩ | ⟨rfl, hash, now, rfl, rfl⟩
    · exact hold hbefore hslot
    · -- it has just been given its slot
      have hstamp := hw.stamp (stamp_of_slot (hw.linked.tracks.allows htask))
        (hcame' (Or.inr (by rw [htask]; simp)))
      generalize w'.caches (env.inst r) = cache at hact hv
      cases hact
      exact Nat.lt_of_le_of_lt hstamp (call_created hv)
  | @cancels r' hi hcache =>
    rw [hcache] at hc
    by_cases hne : r = r'
    · rw [hne, ProbeCache.caller_cancel_self] at hc
      cases hc
    · rw [ProbeCache.caller_cancel hne] at hc
      exact hold hc rfl

/-- Who is told *absent* is told what a probe on its slot has found. -/
theorem step_shared (hok : ok w l) (hrole : env.role r = .reader key)
    (hshared : (w'.session env r).shared = some false) (hcame : Came w' r t) :
    ∃ t', t < t' + unresolvedTtl ∧ Missed env ok objects (ls ++ [l]) w' key t' := by
  have hold : (w.session env r).shared = some false →
      ∃ t', t < t' + unresolvedTtl ∧ Missed env ok objects (ls ++ [l]) w' key t' := by
    intro hshared
    rcases hcame.origin h with hcame | ⟨-, htask⟩
    · obtain ⟨t', hlt, hmissed⟩ := hw.shared hrole hshared hcame
      exact ⟨t', hlt, hmissed.snoc hok h⟩
    · rw [hw.linked.tracks.session_absent htask] at hshared
      cases hshared
  cases moves_of_step h r with
  | @acts e resp k cache htask hlocal _ hhist _ =>
    rw [session_snoc hhist] at hshared
    rcases learn_shared hshared with hbefore | ⟨s, hev⟩
    · exact hold hbefore
    · cases hev
      -- it finds in its cell what a probe has left there
      obtain ⟨phase, hc, hv⟩ := (acts_of_localStep hlocal).shares
      have hcame' : Came w r t := by
        rcases hcame.origin h with hcame | ⟨-, habsent⟩
        · exact hcame
        · rw [htask] at habsent
          cases habsent
      have hhash : ((w.caches (env.inst r)).arena phase.slot).hash = key := by
        have heq := (hw.linked.inside hc).role.symm.trans hrole
        injection heq
      have hmissed := hw.values ((hw.linked.wf _).caller_lt hc) hv
      rw [hhash] at hmissed
      refine ⟨_, hw.callers hc hcame' ?_, hmissed.snoc hok h⟩
      rw [hv]
      simp
  | @delivers call since reply k htask _ hhist _ =>
    rw [session_snoc hhist] at hshared
    rcases learn_shared hshared with hbefore | ⟨s, hev⟩
    · exact hold hbefore
    · cases hev
  | stays _ hhist | arrives _ _ hhist | calls _ _ hhist | answers _ _ hhist | serves _ _ hhist
  | drops _ hhist =>
    rw [session_congr hhist] at hshared
    exact hold hshared

theorem step (hrun : Run (World.step env) ok (init objects) ls w) (hok : ok w l) :
    Grounded env ok objects (ls ++ [l]) w' where
  linked := hw.linked.step h
  came := hw.step_came h
  probes := hw.step_probes h hrun hok
  values := hw.step_values h hok
  own := hw.step_own h hrun hok
  stamp := hw.step_stamp h
  callers := hw.step_callers h
  shared := hw.step_shared h hok

end Grounded

theorem grounded_of_run (hrun : Run (World.step env) ok (init objects) ls w) :
    Grounded env ok objects ls w :=
  hrun.invariant_run (fun _ _ _ _ hrun hw hok h => hw.step h hrun hok) grounded_init

/-- **Bounded staleness.** A GET that is answered 404 though no request of its own
has failed rests on a moment, less than `UNRESOLVED_TTL` before it arrived or
later, at which the object was not there. -/
theorem bounded_staleness (hrun : Run (World.step env) ok (init objects) ls w)
    (hget : env.Gets r key) (hcame : Came w r t) {response : Response}
    (hans : w.tasks r = .answered response) (hstatus : response.status = 404) :
    (∃ t err, ⟨t, r, .did ⟨.s3 (.headObject key), Except.error (HeadError.other err)⟩⟩ ∈ w.trace) ∨
    (∃ t err, ⟨t, r, .did ⟨.s3 (.getObject key), Except.error (GetError.other err)⟩⟩ ∈ w.trace) ∨
    Took (World.step env) ok (init objects) ls w fun u _ _ =>
      u.bucket.objects key = none ∧ t < u.clock + unresolvedTtl := by
  have hw := grounded_of_run hrun
  have ht := hw.linked.tracks
  have hrole := Env.gets_iff.mp hget
  have hkey : (env.role r).key = some key := by rw [hrole]; rfl
  by_cases hlate : Late env w r
  · by_cases hshared : (w.session env r).shared = some false
    · obtain ⟨t', hlt, hmissed⟩ := hw.shared hrole hshared hcame
      refine Or.inr (Or.inr (hmissed.mono ?_))
      rintro u l v ⟨hnone, hclock⟩
      exact ⟨hnone, Nat.lt_of_lt_of_le hlt (Nat.add_le_add_right hclock _)⟩
    -- nobody has told it of an absence, so its own request failed
    · rcases hlate.notFound hshared ht hrole hans hstatus with ⟨err, hprobe⟩ | ⟨err, hgot⟩
      · obtain ⟨time, hmem⟩ := did_of_probe ht hkey hprobe
        exact Or.inl ⟨time, err, hmem⟩
      · obtain ⟨time, hmem⟩ := did_of_got ht hkey hgot
        exact Or.inr (Or.inl ⟨time, err, hmem⟩)
  · refine Or.inr (Or.inr ((hw.own hkey hcame hlate).mono ?_))
    rintro u l v ⟨hnone, hclock⟩
    exact ⟨hnone, Nat.lt_of_le_of_lt hclock (Nat.lt_add_of_pos_right (by decide))⟩

private def getThenPut : Env :=
  exampleEnv [(0, exampleGet), (1, examplePut [1, 2, 3]), (0, exampleGet)]

/-- A GET finds no object; it is stored by another instance, and three seconds
later another GET still finds *absent* in the cell. -/
def staleGet : List Label :=
  [.arrive 0, .run 0, .run 0, .run 0, .run 0, .serve 0 .answer, .deliver 0, .run 0, .run 0,
    .arrive 1, .run 1, .serve 1 .answer, .deliver 1, .run 1, .run 1, .run 1, .serve 1 .answer,
    .deliver 1, .run 1, .run 1, .run 1, .tick (fromSecs 3),
    .arrive 2, .run 2, .run 2, .run 2, .run 2]

omit [RustChar] in
/-- A GET that is told of a look from before the PUT: three seconds before it came,
the object was not there. -/
theorem staleGet_missed :
    ∃ w, Run (@World.step asciiChars getThenPut) (fun _ _ => True) (init fun _ => none)
        staleGet w ∧
      ((∃ t err, ⟨t, 2, .did ⟨.s3 (.headObject "abc"), Except.error (HeadError.other err)⟩⟩ ∈
          w.trace) ∨
        (∃ t err, ⟨t, 2, .did ⟨.s3 (.getObject "abc"), Except.error (GetError.other err)⟩⟩ ∈
          w.trace) ∨
        Took (@World.step asciiChars getThenPut) (fun _ _ => True) (init fun _ => none) staleGet w
          fun u _ _ => u.bucket.objects "abc" = none ∧ fromSecs 3 < u.clock + unresolvedTtl) := by
  let _ : RustChar := asciiChars
  obtain ⟨w, hrun, hans, hcame⟩ : ∃ w,
      Run (World.step getThenPut) (fun _ _ => True) (init fun _ => none) staleGet w ∧
      (w.tasks 2).response =
        some ⟨404, some "text/plain", some "close", .text "The record was not found"⟩ ∧
      Came w 2 (fromSecs 3) :=
    exists_run_of_exec (fun _ _ _ => trivial)
      (show (exec _ (fun _ _ => true) _ _).any _ = true by decide)
  rw [Task.response_eq_some] at hans
  exact ⟨w, hrun, bounded_staleness hrun (Env.gets_example rfl) hcame hans rfl⟩

end World

end NxCacheServer.System
