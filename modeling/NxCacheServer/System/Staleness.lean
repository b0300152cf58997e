import NxCacheServer.System.MonotonicReads

/-!
# Staleness across instances

An instance may answer 404 for an object that another instance has stored in the
meantime: from an *absent* in its cache, or from a probe in flight that a GET
joins. What counts is when the evidence was gathered. An *absent* in a cell is no
older than the probe that put it there, and that started on a slot at least as
old, so `NEGATIVE_TTL` bounds what is cached. But a probe in flight is bounded
by the timeout of a request to S3 only: `freshReads_iff`.

Three invariants follow the evidence. `Aged`: slots are older than the probes on
them, and these are not older than the timeout. `Dated`: what is known against the
object dates from before the write. `Recent`: a reader that comes late enough is told
none of that. In `joined` a GET takes part in a probe that has been answered long
ago, which is how the bound of the README fails.

The other direction, `not_freshReads`, needs a run for every timeout above
`NEGATIVE_TTL`. It is one run with the shortest of these timeouts, one nanosecond more
than five seconds, since a run that keeps a timeout keeps every longer one
(`Timely.mono`).
-/

namespace NxCacheServer.System

open NxCacheServer.Domain NxCacheServer.Infra NxCacheServer.Server NxCacheServer.Lib

/-- S3 fails no request. -/
def Label.Unfailing : Label → Prop
  | .serve _ fate => fate.served = true
  | _ => True

instance : DecidablePred Label.Unfailing := fun l =>
  match l with
  | .serve _ fate => inferInstanceAs (Decidable (fate.served = true))
  | .tick _ => isTrue trivial
  | .arrive _ => isTrue trivial
  | .run _ => isTrue trivial
  | .deliver _ => isTrue trivial
  | .cancel _ => isTrue trivial
  | .stray _ _ => isTrue trivial
  | .delete _ => isTrue trivial

/-- The reply to a reader's request is an error. -/
def Fails : (call : S3Call) → call.Reply → Prop
  | .headObject _, reply => ∃ err, reply = Except.error (HeadError.other err)
  | .getObject _, reply => ∃ err, reply = Except.error (GetError.other err)
  | _, _ => False

/-- What S3 itself answers is no failure of a look. -/
theorem not_fails {bucket : Bucket} {eTagOf : Bytes → ETag} {call : S3Call} {fate : Fate}
    (h : fate.served = true) : ¬ Fails call (fate.reply call (bucket.reply eTagOf call)) := by
  intro hfails
  cases call with
  | headObject key =>
    obtain ⟨err, hreply⟩ := hfails
    rcases bucket.reply_headObject eTagOf key with ⟨-, heq⟩ | ⟨-, heq⟩
    · rw [heq] at hreply
      cases fate <;> cases hreply
      cases h
    · rw [heq] at hreply
      cases fate <;> cases hreply
      cases h
  | getObject key =>
    obtain ⟨err, hreply⟩ := hfails
    rcases bucket.reply_getObject eTagOf key with ⟨bytes, -, heq⟩ | ⟨-, heq⟩
    · rw [heq] at hreply
      cases fate <;> cases hreply
      cases h
    · rw [heq] at hreply
      cases fate <;> cases hreply
      cases h
  | _ => exact hfails

namespace World

variable [RustChar] {env : Env} {w w' : World} {l : Label} {r : ReqId} {i : InstId} {key : Hash}
  {timeout : Duration} {t : Instant}

/-! ## Readers that S3 answers -/

/-- None of the requests of `r` has failed. -/
structure Spared (w : World) (r : ReqId) : Prop where
  heard : ∀ {call : S3Call} {reply}, (⟨.s3 call, reply⟩ : TaskEvent) ∈ w.hist r → ¬ Fails call reply
  replies : ∀ {call since reply k}, w.tasks r = .calling call since (some reply) k →
    ¬ Fails call reply

/-- Nothing has failed for a request that has not come. -/
theorem spared_of_absent (ht : Tracks env w) (htask : w.tasks r = .absent) : Spared w r where
  heard hmem := by
    rw [(ht r).1 htask] at hmem
    cases hmem
  replies h := by
    rw [htask] at h
    cases h

/-- It stays spared in a step in which S3 fails nobody. -/
theorem Spared.step (hr : Spared w r) (h : w.step env l = some w') (hl : l.Unfailing) :
    Spared w' r where
  heard {call reply} hmem := by
    cases moves_of_step h r with
    | @acts e resp k cache _ hlocal _ hhist _ _ =>
      rw [hhist] at hmem
      rcases List.mem_append.mp hmem with hbefore | hnew
      · exact hr.heard hbefore
      · have hev := List.mem_singleton.mp hnew
        cases hev
        exact absurd rfl (localStep_local hlocal call)
    | @delivers call' since reply' k htask _ hhist _ =>
      rw [hhist] at hmem
      rcases List.mem_append.mp hmem with hbefore | hnew
      · exact hr.heard hbefore
      · have hev := List.mem_singleton.mp hnew
        cases hev
        exact hr.replies htask
    | stays _ hhist | arrives _ _ hhist | calls _ _ hhist | answers _ _ hhist | serves _ _ hhist
    | drops _ hhist =>
      rw [hhist] at hmem
      exact hr.heard hmem
  replies {call since reply k} htask := by
    rcases reply_of_step h htask with hold | ⟨fate, rfl, -, rfl, -⟩
    · exact hr.replies hold
    · exact not_fails hl

/-! ## Ages -/

theorem clock_cases (h : w.step env l = some w') :
    w'.clock = w.clock ∨ ∃ d, l = .tick d ∧ w' = { w with clock := w.clock + d } := by
  cases step_cases h with
  | tick d => exact Or.inr ⟨d, rfl, rfl⟩
  | _ => exact Or.inl rfl

/-- Whoever is in a cache has left something in the trace. -/
theorem Linked.traced (hw : Linked env w) {phase : Phase}
    (hc : (w.caches (env.inst r)).caller r = some phase) : ∃ entry ∈ w.trace, entry.req = r := by
  have hslot := (hw.inside hc).slot
  have hne : w.hist r ≠ [] := by
    intro hnil
    rw [session, hnil] at hslot
    cases hslot
  obtain ⟨ev, hev⟩ := List.exists_mem_of_ne_nil _ hne
  obtain ⟨time, hmem⟩ := mem_hist.mp hev
  exact ⟨_, hmem, rfl⟩

/-- A probe that runs ran before, or starts now on the slot its caller has. -/
theorem probing_of_step (h : w.step env l = some w') {s : SlotId} {since : Instant}
    (hc : (w'.caches i).caller r = some (.probing s since)) :
    (w.caches i).caller r = some (.probing s since) ∨ since = w.clock ∧
      ∃ phase, (w.caches i).caller r = some phase ∧ phase.slot = s ∧
        phase.probingSince = none := by
  cases cacheMoves_of_step h i with
  | stays hcache =>
    rw [hcache] at hc
    exact Or.inl hc
  | acts _ _ hact => exact hact.probing_cases hc
  | @cancels r' _ hcache =>
    rw [hcache] at hc
    by_cases hr : r = r'
    · rw [hr, ProbeCache.caller_cancel_self] at hc
      cases hc
    · rw [ProbeCache.caller_cancel hr] at hc
      exact Or.inl hc

/-- Slots are made before their probes start, and those end in time. -/
structure Aged (timeout : Duration) (w : World) : Prop where
  created : ∀ {i s}, s < (w.caches i).fresh → ((w.caches i).arena s).created ≤ w.clock
  probing : ∀ {i r s since}, (w.caches i).caller r = some (.probing s since) →
    ((w.caches i).arena s).created ≤ since ∧ since ≤ w.clock ∧ w.clock ≤ since + timeout

omit [RustChar] in
theorem aged_init {objects : Hash → Option Bytes} : Aged timeout (init objects) where
  created h := absurd h (Nat.not_lt_zero _)
  probing h := by cases h

/-- A tick keeps the timeout, a new slot is as old as its timestamp, and a probe
starts now. -/
theorem Aged.step (hw : Aged timeout w) (hlinked : Linked env w) (h : w.step env l = some w')
    (ht : Timely env timeout w l) : Aged timeout w' where
  created {i s} hs := by
    have hclock : w.clock ≤ w'.clock := clock_of_step h
    obtain ⟨cl, done, htouches, hstamp⟩ := hlinked.touches h i
    cases htouches with
    | kept hfresh _ _ hcreated _ =>
      have hbefore := hw.created (i := i) (s := s) (hfresh ▸ hs)
      rw [← hcreated s] at hbefore
      exact Nat.le_trans hbefore hclock
    | @inserted hash now p hcl _ hfresh _ harena =>
      rw [harena]
      split
      next => exact Nat.le_trans (hstamp now hcl) hclock
      next hne =>
        have hlt : s < (w.caches i).fresh := by
          rw [hfresh] at hs
          lia
        exact Nat.le_trans (hw.created hlt) hclock
  probing {i r s since} hc := by
    have hi : env.inst r = i := (hlinked.step h).inst_of_caller hc
    subst hi
    have hcreated := (extends_of_step h (env.inst r)).created (s := s)
    rcases probing_of_step h hc with hbefore | ⟨rfl, phase, hphase, rfl, hidle⟩
    · obtain ⟨hslot, hsince, hend⟩ := hw.probing hbefore
      rw [hcreated ((hlinked.wf _).caller_lt hbefore)]
      rcases clock_cases h with hclock | ⟨d, rfl, rfl⟩
      · rw [hclock]
        exact ⟨hslot, hsince, hend⟩
      · -- the probe is still within its time after the tick
        obtain ⟨entry, hmem, hreq⟩ := hlinked.traced hbefore
        have hin := (ht entry hmem).2 since (by rw [hreq, probingSince, hbefore]; rfl)
        exact ⟨hslot, Nat.le_trans hsince (Nat.le_add_right _ _), hin⟩
    · have hlt := (hlinked.wf _).caller_lt hphase
      rw [hcreated hlt]
      rcases clock_cases h with hclock | ⟨d, rfl, rfl⟩
      · rw [hclock]
        exact ⟨hw.created hlt, Nat.le_refl _, Nat.le_add_right _ _⟩
      · -- time passes, but no probe starts meanwhile
        rw [show _ = some phase from hphase] at hc
        rw [Option.some.inj hc] at hidle
        cases hidle

/-! ## Evidence from before the write -/

/-- The object of `key` is there, and every *absent* about it dates from `t` or
before: the probes that may still end in it, and the slots that have it. -/
structure Dated (env : Env) (key : Hash) (t : Instant) (w : World) : Prop where
  linked : Linked env w
  bound : w.Bound key
  probes : ∀ {i r s since}, (w.caches i).caller r = some (.probing s since) →
    env.role r = .reader key → t < since → Late env w r
  values : ∀ {i s}, s < (w.caches i).fresh → ((w.caches i).arena s).hash = key →
    (w.caches i).value s = some false → ((w.caches i).arena s).created ≤ t

/-- Once the object is there, all evidence against it is from before. -/
theorem dated_of_bound (hlinked : Linked env w) (hbound : w.Bound key) (ha : Aged timeout w) :
    Dated env key w.clock w where
  linked := hlinked
  bound := hbound
  probes hc _ hlt := absurd (ha.probing hc).2.1 (Nat.not_le_of_lt hlt)
  values hs _ _ := ha.created hs

namespace Dated

variable (hw : Dated env key t w) (ha : Aged timeout w) (h : w.step env l = some w')

include hw h

omit h in
/-- A caller that waits for its cell has not looked anywhere. -/
theorem late_of_idle {phase : Phase} (hc : (w.caches i).caller r = some phase)
    (hidle : phase.probingSince = none) : Late env w r := by
  have hi : env.inst r = i := hw.linked.inst_of_caller hc
  subst hi
  exact (hw.linked.inside hc).late hw.linked.tracks hidle

/-- A probe that starts after `t` is one of a reader that finds the object. -/
theorem step_probes {s : SlotId} {since : Instant}
    (hc : (w'.caches i).caller r = some (.probing s since)) (hrole : env.role r = .reader key)
    (hlt : t < since) : Late env w' r := by
  have hlate : Late env w r := by
    rcases probing_of_step h hc with hbefore | ⟨-, phase, hphase, -, hidle⟩
    · exact hw.probes hbefore hrole hlt
    · exact hw.late_of_idle hphase hidle
  exact hlate.step hw.linked.tracks hw.bound (by rw [hrole]; rfl) h

/-- Only a probe from before the write puts *absent* into a cell. -/
theorem value_false {s : SlotId} (hs : s < (w'.caches i).fresh)
    (hhash : ((w'.caches i).arena s).hash = key) (hv : (w'.caches i).value s = some false) :
    s < (w.caches i).fresh ∧ ((w.caches i).arena s).hash = key ∧
      ((w.caches i).value s = some false ∨ ∃ r since,
        (w.caches i).caller r = some (.probing s since) ∧ env.role r = .reader key ∧ since ≤ t) := by
  have hextends := extends_of_step h i
  cases cacheMoves_of_step h i with
  | stays hcache =>
    rw [hcache] at hs hhash hv
    exact ⟨hs, hhash, Or.inl hv⟩
  | @acts r e resp k hi htask hact =>
    rcases hact.value_cases hs hv with ⟨hs', hv'⟩ | ⟨-, hno, -⟩ | ⟨⟨since, hc⟩, s', rfl⟩
    · exact ⟨hs', (hextends.hash hs').symm.trans hhash, Or.inl hv'⟩
    · cases hno
    · subst hi
      have hs' : s < (w.caches (env.inst r)).fresh := (hw.linked.wf _).caller_lt hc
      have hhash' := (hextends.hash hs').symm.trans hhash
      have hrole : env.role r = .reader key := by
        rw [(hw.linked.inside hc).role]
        exact congrArg _ hhash'
      refine ⟨hs', hhash', Or.inr ⟨r, since, hc, hrole, ?_⟩⟩
      -- a later probe would not have been told so
      by_contra hlt
      have hallows := hw.linked.tracks.allows htask
      rw [hrole] at hallows
      obtain ⟨-, -, reply, hreply, hverdict⟩ := hallows
      rw [Session.verdict_eq_false.mp hverdict.symm] at hreply
      exact (hw.probes hc hrole (Nat.lt_of_not_le hlt)).probe hreply
  | cancels _ hcache =>
    rw [hcache, ProbeCache.value_cancel] at hv
    rw [hcache, ProbeCache.fresh_cancel] at hs
    exact ⟨hs, (hextends.hash hs).symm.trans hhash, Or.inl hv⟩

include ha in

/-- A cell that says *absent* was made by `t`, since its slot is older than its
probe. -/
theorem step_values {s : SlotId} (hs : s < (w'.caches i).fresh)
    (hhash : ((w'.caches i).arena s).hash = key) (hv : (w'.caches i).value s = some false) :
    ((w'.caches i).arena s).created ≤ t := by
  obtain ⟨hlt, hhash', hv | ⟨r, since, hc, -, hsince⟩⟩ := hw.value_false h hs hhash hv
  · rw [(extends_of_step h i).created hlt]
    exact hw.values hlt hhash' hv
  · rw [(extends_of_step h i).created hlt]
    exact Nat.le_trans (ha.probing hc).1 hsince

include ha in

/-- The evidence stays dated, as long as nothing is deleted. -/
theorem step (hl : l.Keeps) : Dated env key t w' where
  linked := hw.linked.step h
  bound := hw.bound.step h hl.ne_delete
  probes := hw.step_probes h
  values := hw.step_values ha h

/-- When every probe has started since the write, no cell becomes *absent*. -/
theorem value_kept (hprobes : ∀ {i q s since},
    (w.caches i).caller q = some (.probing s since) → t < since) {s : SlotId}
    (hs : s < (w'.caches i).fresh) (hhash : ((w'.caches i).arena s).hash = key)
    (hv : (w'.caches i).value s = some false) :
    s < (w.caches i).fresh ∧ (w.caches i).value s = some false := by
  obtain ⟨hlt, -, hv | ⟨q, since, hc, -, hsince⟩⟩ := hw.value_false h hs hhash hv
  · exact ⟨hlt, hv⟩
  · exact absurd (hprobes hc) (Nat.not_lt_of_le hsince)

omit h in
/-- A slot that is handed out later than `NEGATIVE_TTL` is empty or live, and an
*absent* that old is dead. -/
theorem call_value {now : Instant} (hnow : t + negativeTtl < now) :
    ((w.caches i).call r key now).1.value ((w.caches i).call r key now).2 ≠ some false := by
  intro hv
  unfold ProbeCache.call at hv
  rcases ProbeCache.slot_cases (w.caches i) key now with ⟨s, hentry, hlive, heq⟩ | ⟨-, heq⟩
  · rw [heq] at hv
    have hvalue : (w.caches i).value s = some false := hv
    have hcreated := hw.values ((hw.linked.wf i).entry_lt hentry)
      ((hw.linked.wf i).entry_hash hentry) hvalue
    have hage : now < ((w.caches i).arena s).created + negativeTtl := by
      rcases Slot.live_eq.mp hlive with ⟨hno, -⟩ | ⟨hno, -⟩ | ⟨-, hage⟩
      · cases hno.symm.trans hvalue
      · cases hno.symm.trans hvalue
      · exact hage
    lia
  · rw [heq] at hv
    simp at hv

end Dated

/-! ## Readers from after the write -/

/-- A reader that started more than `NEGATIVE_TTL` after `t`: no *absent* has
reached it, and its cell will not tell it one. -/
structure Recent (env : Env) (t : Instant) (r : ReqId) (w : World) : Prop where
  late : Late env w r
  clock : t + negativeTtl < w.clock
  stamp : ∀ {now}, (w.session env r).stamp = some now → t + negativeTtl < now
  cell : ∀ {phase}, (w.caches (env.inst r)).caller r = some phase →
    (w.caches (env.inst r)).value phase.slot ≠ some false
  shared : (w.session env r).shared ≠ some false

/-- A reader that has not come has seen no evidence. -/
theorem recent_of_absent (hlinked : Linked env w) (htask : w.tasks r = .absent)
    (hclock : t + negativeTtl < w.clock) : Recent env t r w := by
  have hsession := hlinked.tracks.session_absent htask
  refine ⟨late_of_absent hlinked.tracks htask, hclock, ?_, ?_, ?_⟩
  · intro now hstamp
    rw [hsession] at hstamp
    cases hstamp
  · intro phase hc
    have hslot := (hlinked.inside hc).slot
    rw [hsession] at hslot
    cases hslot
  · intro hshared
    rw [hsession] at hshared
    cases hshared

namespace Recent

variable (hr : Recent env t r w) (h : w.step env l = some w')

include hr h

/-- It takes its timestamp after `NEGATIVE_TTL` is over. -/
theorem step_stamp {now : Instant} (hstamp : (w'.session env r).stamp = some now) :
    t + negativeTtl < now := by
  cases moves_of_step h r with
  | @acts e resp k cache htask hlocal _ hhist _ =>
    rw [session_snoc hhist] at hstamp
    rcases learn_stamp hstamp with hbefore | hev
    · exact hr.stamp hbefore
    · cases hev
      cases hlocal
      exact hr.clock
  | @delivers call since reply k htask _ hhist _ =>
    rw [session_snoc hhist] at hstamp
    rcases learn_stamp hstamp with hbefore | hev
    · exact hr.stamp hbefore
    · cases hev
  | stays _ hhist | arrives _ _ hhist | calls _ _ hhist | answers _ _ hhist | serves _ _ hhist
  | drops _ hhist =>
    rw [session_congr hhist] at hstamp
    exact hr.stamp hstamp

/-- So the slot it is given says nothing else, or nothing yet; and what is still to
come is of later probes. -/
theorem step_cell (hw : Dated env key t w) (hrole : env.role r = .reader key)
    (hprobes : ∀ {i q s since}, (w.caches i).caller q = some (.probing s since) → t < since)
    {phase : Phase} (hc : (w'.caches (env.inst r)).caller r = some phase) :
    (w'.caches (env.inst r)).value phase.slot ≠ some false := by
  intro hv
  have hlinked := hw.linked.step h
  have hhash : ((w'.caches (env.inst r)).arena phase.slot).hash = key := by
    have heq := (hlinked.inside hc).role.symm.trans hrole
    injection heq
  obtain ⟨hlt, hv'⟩ := hw.value_kept h hprobes ((hlinked.wf _).caller_lt hc) hhash hv
  have hold : ∀ {before}, (w.caches (env.inst r)).caller r = some before →
      before.slot ≠ phase.slot := by
    intro before hbefore hslot
    exact hr.cell hbefore (hslot ▸ hv')
  cases cacheMoves_of_step h (env.inst r) with
  | stays hcache =>
    rw [hcache] at hc
    exact hold hc rfl
  | @acts r' e resp k hi htask hact =>
    rcases hact.caller_cases hc with ⟨before, hbefore, hslot⟩ | ⟨rfl, hash, now, rfl, rfl⟩
    · exact hold hbefore hslot
    · -- it has just been handed its slot
      have hallows := hw.linked.tracks.allows htask
      rw [hrole] at hallows
      obtain ⟨rfl, -, hstamp⟩ := hallows
      generalize hcache : w'.caches (env.inst r) = cache at hact
      rw [hcache] at hv
      cases hact
      exact hw.call_value (hr.stamp hstamp) hv
  | @cancels r' hi hcache =>
    rw [hcache] at hc
    by_cases hne : r = r'
    · rw [hne, ProbeCache.caller_cancel_self] at hc
      cases hc
    · rw [ProbeCache.caller_cancel hne] at hc
      exact hold hc rfl

theorem step_shared :
    (w'.session env r).shared ≠ some false := by
  intro hshared
  cases moves_of_step h r with
  | @acts e resp k cache htask hlocal _ hhist _ =>
    rw [session_snoc hhist] at hshared
    rcases learn_shared hshared with hbefore | ⟨s, hev⟩
    · exact hr.shared hbefore
    · cases hev
      obtain ⟨phase, hc, hv⟩ := (acts_of_localStep hlocal).shares
      exact hr.cell hc hv
  | @delivers call since reply k htask _ hhist _ =>
    rw [session_snoc hhist] at hshared
    rcases learn_shared hshared with hbefore | ⟨s, hev⟩
    · exact hr.shared hbefore
    · cases hev
  | stays _ hhist | arrives _ _ hhist | calls _ _ hhist | answers _ _ hhist | serves _ _ hhist
  | drops _ hhist =>
    rw [session_congr hhist] at hshared
    exact hr.shared hshared

theorem step (hw : Dated env key t w) (hrole : env.role r = .reader key)
    (hprobes : ∀ {i q s since}, (w.caches i).caller q = some (.probing s since) → t < since) :
    Recent env t r w' where
  late := hr.late.step hw.linked.tracks hw.bound (by rw [hrole]; rfl) h
  clock := Nat.lt_of_lt_of_le hr.clock (clock_of_step h)
  stamp := hr.step_stamp h
  cell := hr.step_cell h hw hrole hprobes
  shared := hr.step_shared h

end Recent

/-! ## The bound -/

/-- The runs of the statement: nothing is deleted, S3 fails no request, and each
ends within `timeout`. -/
def Answering (env : Env) (timeout : Duration) (w : World) (l : Label) : Prop :=
  (l.Keeps ∧ l.Unfailing) ∧ Timely env timeout w l

/-- A GET that starts more than `NEGATIVE_TTL` after a PUT of its key was answered
200 on another instance is not answered 404. -/
def FreshReads (timeout : Duration) : Prop :=
  ∀ (_ : RustChar) {env : Env} {objects : Hash → Option Bytes} {ls ls₁ ls₂ : List Label}
    {w₀ w₁ w : World} {p r : ReqId} {key : Hash} {response response' : Response},
    Run (World.step env) (Answering env timeout) (init objects) ls w₀ →
    env.Puts p key → w₀.tasks p = .answered response → response.status = 200 →
    Run (World.step env) (Answering env timeout) w₀ ls₁ w₁ →
    w₀.clock + negativeTtl < w₁.clock →
    env.Gets r key → env.inst r ≠ env.inst p → w₁.tasks r = .absent →
    Run (World.step env) (Answering env timeout) w₁ ls₂ w →
    w.tasks r = .answered response' → response'.status ≠ 404

/-- A PUT that was answered 200 has put its object there. -/
theorem bound_of_stored {p : ReqId} (he : Evident env w) (hput : env.Puts p key)
    {response : Response} (hans : w.tasks p = .answered response) (hstatus : response.status = 200) :
    w.Bound key := by
  obtain ⟨inner, rfl, hends⟩ := he.tracks.ends (Or.inl hans)
  have hrole := Env.puts_iff.mp hput
  rw [hrole] at hends
  rw [finalize_status] at hstatus
  rcases hends with ⟨-, -, rfl⟩ | ⟨-, hwrote, -, -⟩ | ⟨-, -, -, rfl⟩ | ⟨-, -, -, rfl⟩
  · cases hstatus
  · exact he.sessions (by rw [hrole]; rfl) (Or.inr hwrote)
  · cases hstatus
  · cases hstatus

omit [RustChar] in
/-- Reads are fresh if no probe outlives `NEGATIVE_TTL`. -/
theorem freshReads_of_le (hle : timeout ≤ negativeTtl) : FreshReads timeout := by
  intro _ env objects ls ls₁ ls₂ w₀ w₁ w p r key response response' hrun hput hans hstatus hrun₁
    hlater hget _ hstart hrun₂ hans' hstatus'
  have hrole := Env.gets_iff.mp hget
  -- up to the write
  have hbefore : Linked env w₀ ∧ Evident env w₀ ∧ Aged timeout w₀ := by
    refine hrun.invariant (I := fun w => Linked env w ∧ Evident env w ∧ Aged timeout w) ?_
      ⟨linked_init, evident_init, aged_init⟩
    intro w l w' hI hok h
    obtain ⟨hlinked, he, ha⟩ := hI
    exact ⟨hlinked.step h, he.step h hok.1.1, ha.step hlinked h hok.2⟩
  obtain ⟨hlinked, he, ha⟩ := hbefore
  have hbound := bound_of_stored he hput hans hstatus
  -- up to the read
  have hbetween : Dated env key w₀.clock w₁ ∧ Aged timeout w₁ := by
    refine hrun₁.invariant (I := fun w => Dated env key w₀.clock w ∧ Aged timeout w) ?_
      ⟨dated_of_bound hlinked hbound ha, ha⟩
    intro w l w' hI hok h
    obtain ⟨hw, ha⟩ := hI
    exact ⟨hw.step ha h hok.1.1, ha.step hw.linked h hok.2⟩
  obtain ⟨hw₁, ha₁⟩ := hbetween
  -- and to its answer
  have hafter : (Dated env key w₀.clock w ∧ Aged timeout w) ∧
      Recent env w₀.clock r w ∧ Spared w r := by
    refine hrun₂.invariant (I := fun w => (Dated env key w₀.clock w ∧ Aged timeout w) ∧
      Recent env w₀.clock r w ∧ Spared w r) ?_
      ⟨⟨hw₁, ha₁⟩, recent_of_absent hw₁.linked hstart hlater,
        spared_of_absent hw₁.linked.tracks hstart⟩
    intro w l w' hI hok h
    obtain ⟨⟨hw, ha⟩, hr, hspared⟩ := hI
    have hprobes : ∀ {i q s since}, (w.caches i).caller q = some (.probing s since) →
        w₀.clock < since := by
      intro i q s since hc
      have hend := (ha.probing hc).2.2
      have hclock := hr.clock
      lia
    exact ⟨⟨hw.step ha h hok.1.1, ha.step hw.linked h hok.2⟩, hr.step h hw hrole hprobes,
      hspared.step h hok.1.2⟩
  obtain ⟨⟨hw, -⟩, hr, hspared⟩ := hafter
  have ht := hw.linked.tracks
  have hkey : (env.role r).key = some key := by rw [hrole]; rfl
  rcases hr.late.notFound hr.shared ht hrole hans' hstatus' with ⟨err, hprobe⟩ | ⟨err, hgot⟩
  · obtain ⟨time, hmem⟩ := did_of_probe ht hkey hprobe
    exact hspared.heard (mem_hist.mpr ⟨time, hmem⟩) ⟨err, rfl⟩
  · obtain ⟨time, hmem⟩ := did_of_got ht hkey hgot
    exact hspared.heard (mem_hist.mpr ⟨time, hmem⟩) ⟨err, rfl⟩

/-- Two GETs on instance 1, a PUT on instance 0. -/
private def readersElsewhere : Env :=
  exampleEnv [(1, exampleGet), (0, examplePut [1, 2, 3]), (1, exampleGet)]

/-- A GET probes and S3 finds nothing; before it hears so, the object is stored. -/
def slowProbe : List Label :=
  [.arrive 0, .run 0, .run 0, .run 0, .run 0, .serve 0 .answer,
    .arrive 1, .run 1, .serve 1 .answer, .deliver 1, .run 1, .run 1, .run 1, .serve 1 .answer,
    .deliver 1, .run 1, .run 1, .run 1]

/-- Then another GET joins the probe, and the reply arrives. -/
def joined : List Label :=
  [.arrive 2, .run 2, .run 2, .run 2, .deliver 0, .run 0, .run 2, .run 2]

omit [RustChar] in
theorem Timely.mono {timeout' : Duration} (hle : timeout ≤ timeout')
    (h : Timely env timeout w l) : Timely env timeout' w l := by
  cases l with
  | tick d =>
    intro entry hmem
    obtain ⟨hcall, hprobe⟩ := h entry hmem
    exact ⟨fun since hs => Nat.le_trans (hcall since hs) (Nat.add_le_add_left hle since),
      fun since hs => Nat.le_trans (hprobe since hs) (Nat.add_le_add_left hle since)⟩
  | _ => trivial

instance (w : World) (l : Label) : Decidable (Answering env timeout w l) :=
  inferInstanceAs (Decidable ((l.Keeps ∧ l.Unfailing) ∧ Timely env timeout w l))

omit [RustChar] in
/-- A probe that takes a nanosecond more than `NEGATIVE_TTL`. -/
theorem not_freshReads (hlt : negativeTtl < timeout) : ¬ FreshReads timeout := by
  intro hfresh
  let _ : RustChar := asciiChars
  have hslow : ∀ w l, Answering readersElsewhere (negativeTtl + 1) w l →
      Answering readersElsewhere timeout w l :=
    fun w l h => ⟨h.1, h.2.mono hlt⟩
  have hok : ∀ w l, decide (Answering readersElsewhere (negativeTtl + 1) w l) = true →
      Answering readersElsewhere timeout w l := fun w l h => hslow w l (of_decide_eq_true h)
  obtain ⟨w₀, hrun, hput, hclock, hrest⟩ : ∃ w₀,
      Run (World.step readersElsewhere) (Answering readersElsewhere timeout) (init fun _ => none)
        slowProbe w₀ ∧
      (w₀.tasks 1).response =
        some ⟨200, some "text/plain; charset=utf-8", some "close", .text ""⟩ ∧
      w₀.clock = 0 ∧
      (exec (World.step readersElsewhere) (fun w l => decide (Answering readersElsewhere
          (negativeTtl + 1) w l)) w₀ [.tick (negativeTtl + 1)]).any (fun w₁ =>
        w₁.clock = negativeTtl + 1 ∧ w₁.tasks 2 = .absent ∧
        (exec (World.step readersElsewhere) (fun w l => decide (Answering readersElsewhere
            (negativeTtl + 1) w l)) w₁ joined).any (fun w =>
          (w.tasks 2).response =
            some ⟨404, some "text/plain", some "close", .text "The record was not found"⟩) =
          true) = true :=
    exists_run_of_exec hok (by decide)
  obtain ⟨w₁, hrun₁, hlater, hstart, hrest⟩ := exists_run_of_exec hok hrest
  obtain ⟨w, hrun₂, hmissed⟩ := exists_run_of_exec hok hrest
  rw [Task.response_eq_some] at hput hmissed
  have hputs : readersElsewhere.Puts 1 "abc" := Env.puts_example rfl
  have hgets : readersElsewhere.Gets 2 "abc" := Env.gets_example rfl
  refine hfresh _ hrun hputs hput rfl hrun₁ ?_ hgets (by decide) hstart hrun₂ hmissed rfl
  rw [hclock, hlater]
  decide

omit [RustChar] in
/-- **The staleness bound is as good as the timeout of S3.** A GET that starts more
than `NEGATIVE_TTL` after a PUT was answered 200 on another instance is never
answered 404 exactly if no request to S3 may take longer than `NEGATIVE_TTL`. -/
theorem freshReads_iff (timeout : Duration) : FreshReads timeout ↔ timeout ≤ negativeTtl := by
  constructor
  · intro hfresh
    by_contra hlt
    exact not_freshReads (Nat.lt_of_not_le hlt) hfresh
  · intro hle
    exact freshReads_of_le hle

omit [RustChar] in
/-- With an `S3_TIMEOUT` of 30 s there are stale reads beyond `NEGATIVE_TTL`. -/
theorem slowProbe_missed : ¬ FreshReads (fromSecs 30) :=
  not_freshReads (by decide)

end World

end NxCacheServer.System
