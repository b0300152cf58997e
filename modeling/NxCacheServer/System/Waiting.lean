import NxCacheServer.Lib.Fair
import NxCacheServer.Server.Queueing
import NxCacheServer.System.MonotonicReads
import NxCacheServer.System.Serving

/-!
# What a request waits for

A request that has come and is not over can take a step (an action of its own,
or S3 serves or fails its call, or the reply comes back: `Advances`), or waits
for its client to send the next piece of its body, or waits in the queue of a
cell. There it waits for the request at the head, and that one is never in a
queue itself (`Inside.head_canMove`), so nobody waits in a circle
(`no_deadlock`).

There are two kinds of waiting that do not end by themselves: for the client, which is
none of the server's business, and for another request. The second is excluded by
looking at who is waited for: the head of a queue has the permit or takes it at its
next poll, and its closure looks at S3 and never enters a cell.

`Task.Then` is the order in which a task gets on, and it is well founded, since the
program of a task has only branches that end. `Inside` says who is in the cache: a
request that has its slot and is not through with it. So whoever is in a queue is
found there by its phase, and the head of the queue by its place
(`Inside.head_canMove`); all other requests can move, or their client can
(`Inside.canMove`).
-/

namespace NxCacheServer.System

open NxCacheServer.Domain NxCacheServer.Infra NxCacheServer.Server NxCacheServer.Lib

/-- The steps by which `r` itself gets on. -/
def Label.Advances (r : ReqId) : Label → Prop
  | .run q => q = r
  | .serve q _ => q = r
  | .deliver q => q = r
  | _ => False

/-- What a task becomes when it gets on. -/
inductive Task.Then : Task → Task → Prop
  | answers {response : Response} : Then (.ready (.done response)) (.answered response)
  | calls {call : S3Call} {k : call.Reply → Async Response} {since : Instant} :
      Then (.ready (.act (.s3 call) k)) (.calling call since none k)
  | serves {call : S3Call} {since : Instant} {reply : call.Reply}
      {k : call.Reply → Async Response} :
      Then (.calling call since none k) (.calling call since (some reply) k)
  | delivers {call : S3Call} {since : Instant} {reply : call.Reply}
      {k : call.Reply → Async Response} :
      Then (.calling call since (some reply) k) (.ready (k reply))
  | acts {e : Act} {resp : e.Resp} {k : e.Resp → Async Response} :
      Then (.ready (.act e k)) (.ready (k resp))

/-- It has been answered, or its client has gone away. -/
def Task.Over (task : Task) : Prop := (∃ response, task = .answered response) ∨ task = .dropped

namespace Task

/-- What is left of a task, and the phases of its next action. -/
def left : Task → Option (Async Response × Nat)
  | .ready p => some (p, 2)
  | .calling call _ none k => some (.act (.s3 call) k, 1)
  | .calling call _ (some _) k => some (.act (.s3 call) k, 0)
  | _ => none

/-- Who gets on has something left, and comes closer to its end or is there. -/
theorem nearer_of_then {task task' : Task} (h : Then task task') :
    ∃ left, task.left = some left ∧
      (task'.left = none ∨ ∃ left', task'.left = some left' ∧ Prog.Nearer left' left) := by
  cases h with
  | answers => exact ⟨_, rfl, Or.inl rfl⟩
  | calls => exact ⟨_, rfl, Or.inr ⟨_, rfl, Prog.nearer_phase Nat.one_lt_two⟩⟩
  | serves => exact ⟨_, rfl, Or.inr ⟨_, rfl, Prog.nearer_phase Nat.one_pos⟩⟩
  | @delivers call since reply k =>
    exact ⟨_, rfl, Or.inr ⟨_, rfl,
      @Prog.nearer_answered Act Act.Resp Response (.s3 call) k reply 2 0⟩⟩
  | acts => exact ⟨_, rfl, Or.inr ⟨_, rfl, Prog.nearer_answered⟩⟩

/-- A task gets on only so often. -/
theorem then_wellFounded : WellFounded fun task' task => Then task task' := by
  have hnone : ∀ {task : Task}, task.left = none → Acc (fun task' task => Then task task') task := by
    intro task htask
    refine .intro _ fun task' hthen => ?_
    obtain ⟨left, hleft, -⟩ := nearer_of_then hthen
    rw [htask] at hleft
    cases hleft
  have hsome : ∀ left, ∀ {task : Task}, task.left = some left →
      Acc (fun task' task => Then task task') task := by
    intro left
    induction left using Prog.nearer_wellFounded.induction with
    | _ left ih =>
      intro task htask
      refine .intro _ fun task' hthen => ?_
      obtain ⟨left, hleft, hend | ⟨left', hleft', hnearer⟩⟩ := nearer_of_then hthen
      · exact hnone hend
      · rw [htask] at hleft
        cases hleft
        exact ih left' hnearer hleft'
  refine ⟨fun task => ?_⟩
  cases hleft : task.left with
  | none => exact hnone hleft
  | some left => exact hsome left hleft

end Task

namespace World

variable [RustChar] {env : Env} {w w' : World} {l : Label} {r q : ReqId} {call : S3Call}

/-! ## Who is inside a cache -/

/-- A reader that still needs its slot stands in its cache; one whose client has
gone away does not. -/
structure Inside (env : Env) (w : World) : Prop where
  linked : Linked env w
  needed : ∀ {r}, w.tasks r ≠ .dropped → (w.session env r).slot ≠ none →
    (w.session env r).permit = true ∨
      (w.session env r).shared = none ∧ (w.session env r).probe = none →
    (w.caches (env.inst r)).caller r ≠ none
  gone : ∀ {r}, w.tasks r = .dropped → (w.caches (env.inst r)).caller r = none

theorem inside_init {objects : Hash → Option Bytes} : Inside env (init objects) where
  linked := linked_init
  needed _ hslot := absurd rfl hslot
  gone h := by cases h

/-- A step of somebody else leaves `r` where it stands. -/
theorem caller_of_other (h : w.step env l = some w')
    (hl : ∀ q, l = .run q ∨ l = .cancel q → r ≠ q) :
    (w'.caches (env.inst r)).caller r = (w.caches (env.inst r)).caller r := by
  have hother : ∀ {q cache}, r ≠ q → cache.caller r = (w.caches (env.inst q)).caller r →
      ((w.setCache (env.inst q) cache).caches (env.inst r)).caller r =
        (w.caches (env.inst r)).caller r := by
    intro q cache _ hcaller
    rw [caches_setCache]
    split
    next hi => rw [hcaller, hi]
    next => rfl
  cases step_cases h with
  | @act q e k cache resp htask hlocal =>
    have hne := hl q (Or.inl rfl)
    exact hother hne ((acts_of_localStep hlocal).caller hne)
  | @wait q e k cache htask hlocal =>
    have hne := hl q (Or.inl rfl)
    exact hother hne ((acts_of_localStep hlocal).caller hne)
  | @cancelReady q p htask =>
    have hne := hl q (Or.inr rfl)
    exact hother hne (ProbeCache.caller_cancel hne)
  | @cancelCalling q call since k htask =>
    have hne := hl q (Or.inr rfl)
    exact hother hne (ProbeCache.caller_cancel hne)
  | @cancelServed q call since reply k htask =>
    have hne := hl q (Or.inr rfl)
    exact hother hne (ProbeCache.caller_cancel hne)
  | _ => rfl

namespace Inside

/-- What `r` does itself leaves it inside as long as it needs its slot. -/
theorem acts (hw : Inside env w) {e : Act} {resp : e.Resp} {cache : ProbeCache}
    (hkept : w.tasks r ≠ .dropped) (ha : (w.session env r).Allows (env.role r) (env.body r) e)
    (hact : Acts (w.caches (env.inst r)) r w.clock e cache (some resp))
    (hslot : ((w.session env r).learn e resp).slot ≠ none)
    (hopen : ((w.session env r).learn e resp).permit = true ∨
      ((w.session env r).learn e resp).shared = none ∧
        ((w.session env r).learn e resp).probe = none) : cache.caller r ≠ none := by
  cases hact with
  | slot hash now =>
    rw [ProbeCache.caller_call_self]
    exact Option.some_ne_none _
  | acquire s hpoll =>
    cases ProbeCache.poll_cases hpoll with
    | initialized hc hv =>
      -- told by the cell, it needs its slot no more
      obtain ⟨-, hpermit, -, -⟩ := allows_acquire ha
      rcases hopen with hno | ⟨hno, -⟩
      · rw [show (w.session env r).permit = true from hno] at hpermit
        cases hpermit
      · cases hno
    | first hc hcell => simp
    | turn hc hcell => simp
  | settle s value hfinish =>
    -- its probe is over, and with it the permit
    obtain ⟨-, -, reply, hreply, -⟩ := allows_settle ha
    rcases hopen with hno | ⟨-, hno⟩
    · cases hno
    · rw [show (w.session env r).probe = none from hno] at hreply
      cases hreply
  | markPresent hash now =>
    rw [ProbeCache.caller_markPresent]
    exact hw.needed hkept hslot hopen
  | _ => exact hw.needed hkept hslot hopen

variable (hw : Inside env w) (h : w.step env l = some w')

include hw h

theorem step_needed (hkept : w'.tasks r ≠ .dropped) (hslot : (w'.session env r).slot ≠ none)
    (hopen : (w'.session env r).permit = true ∨
      (w'.session env r).shared = none ∧ (w'.session env r).probe = none) :
    (w'.caches (env.inst r)).caller r ≠ none := by
  -- where `r` neither runs nor is dropped, it stands as before
  have hstays : w.tasks r ≠ .dropped → w'.session env r = w.session env r →
      (∀ q, l = .run q ∨ l = .cancel q → r ≠ q) →
      (w'.caches (env.inst r)).caller r ≠ none := by
    intro hbefore hsession hl
    rw [caller_of_other h hl]
    rw [hsession] at hslot hopen
    exact hw.needed hbefore hslot hopen
  cases step_cases h with
  | @act q e k cache resp htask hlocal =>
    by_cases hr : r = q
    · subst hr
      rw [session_did, if_pos rfl] at hslot hopen
      simp only [caches_record, caches_setTask, caches_setCache, if_pos]
      exact hw.acts (by rw [htask]; simp) (hw.linked.tracks.allows htask)
        (acts_of_localStep hlocal) hslot hopen
    · simp only [tasks_record, tasks_setTask, if_neg hr, tasks_setCache] at hkept
      exact hstays hkept (session_congr (by simp [hr])) (by simp [hr])
  | @wait q e k cache htask hlocal =>
    by_cases hr : r = q
    · subst hr
      simp only [caches_setCache, if_pos]
      cases acts_of_localStep hlocal with
      | wait s hpoll =>
        cases ProbeCache.poll_cases hpoll with
        | join hc hcell => simp
    · exact hstays hkept rfl (by simp [hr])
  | @deliver q call since reply k htask =>
    by_cases hr : r = q
    · subst hr
      rw [session_did, if_pos rfl] at hslot hopen
      obtain ⟨hs, hshared, hpermit, hprobe⟩ := learn_reply (w.session env r) reply
      rw [show (w.setTask r (.ready (k reply))).session env r = w.session env r from rfl]
        at hslot hopen
      rw [hs] at hslot
      rw [hshared, hpermit] at hopen
      exact hw.needed (by rw [htask]; simp) hslot
        (hopen.imp_right fun hopen => ⟨hopen.1, hprobe hopen.2⟩)
    · simp only [tasks_record, tasks_setTask, if_neg hr] at hkept
      exact hstays hkept (session_congr (by simp [hr])) (by simp)
  | @cancelReady q p htask | @cancelCalling q call since k htask
  | @cancelServed q call since reply k htask =>
    by_cases hr : r = q
    · subst hr
      simp at hkept
    · simp only [tasks_addStray, tasks_setCache, tasks_setTask, if_neg hr] at hkept
      exact hstays hkept rfl (by simp [hr])
  | @arrive q htask =>
    have hbefore : w.tasks r ≠ .dropped := by
      by_cases hr : r = q
      · subst hr
        rw [htask]
        simp
      · simpa [hr] using hkept
    exact hstays hbefore (session_congr (by simp)) (by simp)
  | @answer q response htask =>
    by_cases hr : r = q
    · subst hr
      rw [session_record_answered] at hslot hopen
      exact hw.needed (by rw [htask]; simp) hslot hopen
    · simp only [tasks_record, tasks_setTask, if_neg hr] at hkept
      exact hstays hkept (session_congr (by simp)) (by simp [hr])
  | @call q call k htask =>
    by_cases hr : r = q
    · subst hr
      rw [session_record_called] at hslot hopen
      exact hw.needed (by rw [htask]; simp) hslot hopen
    · simp only [tasks_record, tasks_setTask, if_neg hr] at hkept
      exact hstays hkept (session_congr (by simp)) (by simp [hr])
  | @served q fate call since k htask hf | @failed q fate call since k htask hf =>
    have hbefore : w.tasks r ≠ .dropped := by
      by_cases hr : r = q
      · subst hr
        rw [htask]
        simp
      · simpa [hr] using hkept
    exact hstays hbefore rfl (by simp)
  | _ => exact hstays hkept rfl (by simp)

theorem step_gone (hdropped : w'.tasks r = .dropped) :
    (w'.caches (env.inst r)).caller r = none := by
  by_cases hcancel : l = .cancel r
  · subst hcancel
    cases step_cases h <;> simp [ProbeCache.caller_cancel_self]
  · -- only the client of `r` can drop it, so it was dropped before
    have hbefore : w.tasks r = .dropped := by
      cases step_cases h with
      | @cancelReady q p htask | @cancelCalling q call since k htask
      | @cancelServed q call since reply k htask =>
        have hr : r ≠ q := fun heq => hcancel (by rw [heq])
        simpa [hr] using hdropped
      | tick d => exact hdropped
      | wait htask hlocal => exact hdropped
      | stray hp => exact hdropped
      | delete key => exact hdropped
      | @arrive q htask | @answer q response htask | @call q call k htask
      | @act q e k cache resp htask hlocal | @served q fate call since k htask hf
      | @failed q fate call since k htask hf | @deliver q call since reply k htask =>
        by_cases hr : r = q
        · subst hr
          simp at hdropped
        · simpa [hr] using hdropped
    rw [caller_of_other h ?_]
    · exact hw.gone hbefore
    · intro q hl hr
      subst hr
      rcases hl with rfl | rfl
      · rw [World.step, hbefore] at h
        cases h
      · exact hcancel rfl

theorem step : Inside env w' where
  linked := hw.linked.step h
  needed := hw.step_needed h
  gone := hw.step_gone h

end Inside

/-! ## Where a caller is, as its next action tells -/

namespace Inside

variable (hw : Inside env w)

include hw

/-- Who has to enter a cell holds its slot or is in the queue. -/
theorem holding_or_queued {s : SlotId} {k : Acquired → Async Response}
    (htask : w.tasks r = .ready (.act (.acquire s) k)) :
    (w.caches (env.inst r)).caller r = some (.holding s) ∨
      (w.caches (env.inst r)).caller r = some (.queued s) := by
  obtain ⟨hslot, hpermit, hshared, hprobe⟩ := allows_acquire (hw.linked.tracks.allows htask)
  obtain ⟨phase, hc⟩ := Option.ne_none_iff_exists'.mp
    (hw.needed (by rw [htask]; simp) (by simp [hslot]) (Or.inr ⟨hshared, hprobe⟩))
  have hstands := hw.linked.inside hc
  rw [hstands.slot] at hslot
  rw [hstands.permit] at hpermit
  cases phase with
  | holding s' =>
    cases hslot
    exact Or.inl hc
  | queued s' =>
    cases hslot
    exact Or.inr hc
  | probing s' since => cases hpermit

theorem probing_of_settle {s : SlotId} {value : Option Bool} {k : Unit → Async Response}
    (htask : w.tasks r = .ready (.act (.settle s value) k)) :
    ∃ since, (w.caches (env.inst r)).caller r = some (.probing s since) := by
  obtain ⟨hslot, hpermit, -⟩ := allows_settle (hw.linked.tracks.allows htask)
  obtain ⟨phase, hc⟩ := Option.ne_none_iff_exists'.mp
    (hw.needed (by rw [htask]; simp) (by simp [hslot]) (Or.inl hpermit))
  have hstands := hw.linked.inside hc
  rw [hstands.slot] at hslot
  rw [hstands.permit] at hpermit
  cases phase with
  | holding s' => cases hpermit
  | queued s' => cases hpermit
  | probing s' since =>
    cases hslot
    exact ⟨since, hc⟩

/-- A caller that its cell has told nothing yet has more to do. -/
theorem unanswered {phase : Phase} (hc : (w.caches (env.inst r)).caller r = some phase) :
    w.tasks r ≠ .absent ∧ (∀ response, w.tasks r ≠ .ready (.done response)) ∧
      ¬ (w.tasks r).Over := by
  have ht := hw.linked.tracks
  have hs := hw.linked.inside hc
  have hends : ∀ response, ¬ (w.session env r).Ends (env.role r) (env.body r) response := by
    intro response hends
    rw [hs.role] at hends
    obtain ⟨hpermit, hends⟩ := hends
    have hprobe := hs.probe hpermit
    have hgot : (w.session env r).got = none := by
      by_contra hgot
      rcases found_before_got ht hs.role hgot with hno | hno
      · rw [hs.shared] at hno
        cases hno
      · rw [hprobe] at hno
        cases hno
    rcases hends with ⟨body, hno, -⟩ | ⟨-, (hno | ⟨err, hno⟩) | ⟨err, hno⟩⟩
    · rw [hgot] at hno
      cases hno
    · rw [hs.shared] at hno
      cases hno
    · rw [hprobe] at hno
      cases hno
    · rw [hgot] at hno
      cases hno
  refine ⟨?_, ?_, ?_⟩
  · intro htask
    have hslot := hs.slot
    rw [ht.session_absent htask] at hslot
    cases hslot
  · intro response htask
    obtain ⟨inner, -, hno⟩ := ht.ends (Or.inr htask)
    exact hends inner hno
  · intro hover
    rcases hover with ⟨response, htask⟩ | htask
    · obtain ⟨inner, -, hno⟩ := ht.ends (Or.inl htask)
      exact hends inner hno
    · rw [hw.gone htask] at hc
      cases hc

end Inside

/-! ## Getting on -/

/-- A step takes a request that has come further, drops it, or leaves it. -/
theorem then_of_step (h : w.step env l = some w') (harrived : w.tasks r ≠ .absent) :
    w'.tasks r = w.tasks r ∨ Task.Then (w.tasks r) (w'.tasks r) ∨ w'.tasks r = .dropped := by
  cases moves_of_step h r with
  | stays htask' _ => exact Or.inl htask'
  | arrives htask _ => exact absurd htask harrived
  | calls htask htask' =>
    rw [htask, htask']
    exact Or.inr (Or.inl .calls)
  | acts htask _ htask' =>
    rw [htask, htask']
    exact Or.inr (Or.inl .acts)
  | answers htask htask' =>
    rw [htask, htask']
    exact Or.inr (Or.inl .answers)
  | serves htask htask' =>
    rw [htask, htask']
    exact Or.inr (Or.inl .serves)
  | delivers htask htask' =>
    rw [htask, htask']
    exact Or.inr (Or.inl .delivers)
  | drops htask' => exact Or.inr (Or.inr htask')

/-- A task that is ready gets on by its own next action. -/
theorem advances_ready {p : Async Response} (hl : l.Advances r) (htask : w.tasks r = .ready p)
    (h : w.step env l = some w') : l = .run r := by
  cases l with
  | run q =>
    cases hl
    rfl
  | serve q fate =>
    cases hl
    rw [World.step, htask] at h
    cases h
  | deliver q =>
    cases hl
    rw [World.step, htask] at h
    cases h
  | _ => exact absurd hl not_false

/-- Some step takes `r` further. -/
def CanMove (env : Env) (w : World) (r : ReqId) : Prop :=
  ∃ l w', l.Advances r ∧ w.step env l = some w' ∧ Task.Then (w.tasks r) (w'.tasks r)

/-- Where one step takes `r` further, so does every step of its own. -/
theorem CanMove.step (hr : CanMove env w r) (hl : l.Advances r) (h : w.step env l = some w') :
    Task.Then (w.tasks r) (w'.tasks r) := by
  cases step_cases h with
  | @answer q response htask =>
    cases hl
    rw [htask]
    simpa using Task.Then.answers
  | @call q call k htask =>
    cases hl
    rw [htask]
    simpa using Task.Then.calls
  | @act q e k cache resp htask hlocal =>
    cases hl
    rw [htask]
    simpa using Task.Then.acts
  | @wait q e k cache htask hlocal =>
    cases hl
    -- the step that takes it further is this one
    obtain ⟨l₀, w₀, hl₀, h₀, hthen⟩ := hr
    rw [advances_ready hl₀ htask h₀, h] at h₀
    cases h₀
    exact hthen
  | @served q fate call since k htask hf =>
    cases hl
    rw [htask]
    simpa using Task.Then.serves
  | @failed q fate call since k htask hf =>
    cases hl
    rw [htask]
    simpa using Task.Then.serves
  | @deliver q call since reply k htask =>
    cases hl
    rw [htask]
    simpa using Task.Then.delivers
  | _ => exact absurd hl not_false

/-- Only its cell and its client keep a request waiting. -/
theorem Inside.canMove (hw : Inside env w) (harrived : w.tasks r ≠ .absent)
    (hopen : ¬ (w.tasks r).Over)
    (hacquire : ∀ s k, w.tasks r = .ready (.act (.acquire s) k) →
      ∃ cache a, (w.caches (env.inst r)).poll r w.clock = some (cache, .acquired a))
    (hread : ∀ ready item k, w.tasks r = .ready (.act (.read ready item) k) → ready ≤ w.clock) :
    CanMove env w r := by
  have hlocal : ∀ {e : Act} {k : e.Resp → Async Response}, w.tasks r = .ready (.act e k) →
      (∃ cache resp, localStep (w.caches (env.inst r)) r w.clock e = some (cache, some resp)) →
      CanMove env w r := by
    intro e k htask hl
    obtain ⟨cache, resp, hl⟩ := hl
    obtain ⟨w', h, htask'⟩ := run_act htask hl
    refine ⟨.run r, w', rfl, h, ?_⟩
    rw [htask, htask']
    exact .acts
  cases htask : w.tasks r with
  | absent => exact absurd htask harrived
  | dropped => exact absurd (Or.inr htask) hopen
  | answered response => exact absurd (Or.inl ⟨response, htask⟩) hopen
  | calling call since reply k =>
    cases reply with
    | none =>
      refine ⟨.serve r .answer, _, rfl, by rw [World.step, htask]; rfl, ?_⟩
      rw [htask]
      simpa using Task.Then.serves
    | some reply =>
      refine ⟨.deliver r, _, rfl, by rw [World.step, htask], ?_⟩
      rw [htask]
      simpa using Task.Then.delivers
  | ready p =>
    cases p with
    | done response =>
      refine ⟨.run r, _, rfl, by rw [World.step, htask], ?_⟩
      rw [htask]
      simpa using Task.Then.answers
    | act e k =>
      cases e with
      | s3 call =>
        refine ⟨.run r, _, rfl, by rw [World.step, htask], ?_⟩
        rw [htask]
        simpa using Task.Then.calls
      | acquire s =>
        obtain ⟨cache, a, hpoll⟩ := hacquire s k htask
        exact hlocal htask ⟨cache, a, by simp only [localStep, hpoll]⟩
      | read ready item => exact hlocal htask ⟨_, (), if_pos (hread ready item k htask)⟩
      | settle s value =>
        obtain ⟨since, hc⟩ := hw.probing_of_settle htask
        exact hlocal htask ⟨_, (), by simp only [localStep, ProbeCache.finish, hc]; rfl⟩
      | _ => exact hlocal htask ⟨_, _, rfl⟩

/-! ## The queue of a cell -/

/-- A request that enters its cell gets on, or joins the queue. -/
theorem enter_step {s : SlotId} {k : Acquired → Async Response}
    (h : w.step env (.run r) = some w') (htask : w.tasks r = .ready (.act (.acquire s) k)) :
    Task.Then (w.tasks r) (w'.tasks r) ∨ w'.tasks r = w.tasks r ∧
      ∃ s', (w.caches (env.inst r)).caller r = some (.holding s') ∧
        (w'.caches (env.inst r)).caller r = some (.queued s') := by
  cases step_cases h with
  | answer htask' =>
    rw [htask] at htask'
    cases htask'
  | call htask' =>
    rw [htask] at htask'
    cases htask'
  | @act q e k' cache resp htask' hlocal =>
    rw [htask']
    exact Or.inl (by simpa using Task.Then.acts)
  | @wait q e k' cache htask' hlocal =>
    cases acts_of_localStep hlocal with
    | wait s' hpoll =>
      cases ProbeCache.poll_cases hpoll with
      | join hc hcell => exact Or.inr ⟨rfl, _, hc, by simp⟩

/-- What a step does to a request that is about to enter its cell: it gets on,
is dropped, joins the queue, or stays where it is. -/
theorem acquire_step {s : SlotId} {k : Acquired → Async Response} (h : w.step env l = some w')
    (htask : w.tasks r = .ready (.act (.acquire s) k)) :
    Task.Then (w.tasks r) (w'.tasks r) ∨ w'.tasks r = .dropped ∨
      w'.tasks r = w.tasks r ∧
        ((w'.caches (env.inst r)).caller r = (w.caches (env.inst r)).caller r ∨
          ∃ s', (w.caches (env.inst r)).caller r = some (.holding s') ∧
            (w'.caches (env.inst r)).caller r = some (.queued s')) := by
  by_cases hown : ∀ q, l = .run q ∨ l = .cancel q → r ≠ q
  · rcases then_of_step h (by rw [htask]; simp) with hsame | hthen | hdropped
    · exact Or.inr (Or.inr ⟨hsame, Or.inl (caller_of_other h hown)⟩)
    · exact Or.inl hthen
    · exact Or.inr (Or.inl hdropped)
  · push Not at hown
    obtain ⟨q, hl, rfl⟩ := hown
    rcases hl with rfl | rfl
    · exact (enter_step h htask).imp_right fun hjoin => Or.inr ⟨hjoin.1, Or.inr hjoin.2⟩
    · cases step_cases h <;> exact Or.inr (Or.inl (by simp))

theorem Linked.value_step {i : InstId} {s : SlotId} {v : Bool} (hw : Linked env w)
    (h : w.step env l = some w') (hs : s < (w.caches i).fresh)
    (hv : (w.caches i).value s = some v) : (w'.caches i).value s = some v := by
  rcases hw.cache_of_step h i [] with ⟨hcache, -⟩ | ⟨cl, done, hstep⟩
  · rw [hcache]
    exact hv
  · have hwf : (CacheState.mk w.clock (w.caches i) []).cache.WF := hw.wf i
    exact CacheState.value_step hwf hs hv hstep

namespace Inside

variable {s : SlotId} {i : InstId} {ahead : List CallerId} (hw : Inside env w)

include hw

/-- A place in the queue only gets better, unless the cell is set. -/
theorem inLine_step (h : w.step env l = some w') (hline : (w.caches i).InLine r s ahead)
    (hstays : (w'.caches i).caller r = some (.queued s)) :
    (∃ v, (w'.caches i).value s = some v) ∨ (w'.caches i).InLine r s ahead ∨
      ∃ ahead', ahead'.length < ahead.length ∧ (w'.caches i).InLine r s ahead' := by
  rcases hw.linked.cache_of_step h i [] with ⟨hcache, -⟩ | ⟨cl, done, hstep⟩
  · rw [hcache]
    exact Or.inr (Or.inl hline)
  · have hwf : (CacheState.mk w.clock (w.caches i) []).cache.WF := hw.linked.wf i
    exact CacheState.inLine_step hwf hline hstep hstays

/-- The head of a queue waits in no queue, nor for its client. -/
theorem head_canMove {behind : List CallerId} (hv : (w.caches i).value s = none)
    (hq : (w.caches i).queue s = q :: behind) :
    w.tasks q ≠ .absent ∧ ¬ (w.tasks q).Over ∧ CanMove env w q := by
  have hplace := (hw.linked.wf i).mem_queue (show q ∈ (w.caches i).queue s by rw [hq]; simp)
  obtain ⟨phase, hc, hphase⟩ : ∃ phase, (w.caches i).caller q = some phase ∧
      (phase = .queued s ∨ ∃ since, phase = .probing s since) := by
    rcases hplace with hc | ⟨since, hc⟩
    · exact ⟨_, hc, Or.inl rfl⟩
    · exact ⟨_, hc, Or.inr ⟨since, rfl⟩⟩
  have hi := hw.linked.inst_of_caller hc
  subst hi
  obtain ⟨harrived, -, hopen⟩ := hw.unanswered hc
  refine ⟨harrived, hopen, hw.canMove harrived hopen ?_ ?_⟩
  · intro s' k htask
    rcases hw.holding_or_queued htask with hc' | hc'
    · rw [hc] at hc'
      cases hc'
      rcases hphase with hno | ⟨since, hno⟩ <;> cases hno
    · rw [hc] at hc'
      cases hc'
      rcases hphase with heq | ⟨since, hno⟩
      · cases heq
        exact ⟨_, _, ProbeCache.poll_head ⟨hc, hv, behind, hq⟩⟩
      · cases hno
  · intro ready item k htask
    have ha := hw.linked.tracks.allows htask
    rw [(hw.linked.inside hc).role] at ha
    exact absurd ha not_false

end Inside

theorem inside_of_run {ok : World → Label → Prop} {objects : Hash → Option Bytes}
    {ls : List Label} (hrun : Run (World.step env) ok (init objects) ls w) : Inside env w :=
  hrun.invariant (I := Inside env) (fun _ _ _ hw _ h => hw.step h) inside_init

theorem CanMove.enabled (hr : CanMove env w r) :
    Execution.Enabled (World.step env) (Label.Advances r) w := by
  obtain ⟨l, w', hl, h, -⟩ := hr
  exact ⟨l, hl, by rw [h]; rfl⟩

/-- A request that is about to enter its cell can, or is in the queue behind
another that can get on. -/
theorem Inside.enters_or_queues (hw : Inside env w) {s : SlotId} {k : Acquired → Async Response}
    (htask : w.tasks r = .ready (.act (.acquire s) k)) :
    Execution.Enabled (World.step env) (Label.Advances r) w ∨
      ∃ q behind, q ≠ r ∧ env.inst q = env.inst r ∧ env.role q = env.role r ∧
        (w.caches (env.inst r)).queue s = q :: behind ∧ r ∈ behind ∧
        Execution.Enabled (World.step env) (Label.Advances q) w := by
  have hpolls : ∀ {cache polled}, (w.caches (env.inst r)).poll r w.clock = some (cache, polled) →
      Execution.Enabled (World.step env) (Label.Advances r) w := by
    intro cache polled hpoll
    refine ⟨.run r, rfl, ?_⟩
    rw [World.step, htask]
    cases polled <;> simp [localStep, hpoll]
  rcases hw.holding_or_queued htask with hc | hc
  · obtain ⟨cache, polled, hpoll⟩ := ProbeCache.poll_holding w.clock hc
    exact Or.inl (hpolls hpoll)
  · cases hv : (w.caches (env.inst r)).value s with
    | some v => exact Or.inl (hpolls (ProbeCache.poll_set hc hv))
    | none =>
      obtain ⟨ahead, hline⟩ := (hw.linked.wf _).inLine hc hv
      cases ahead with
      | nil => exact Or.inl (hpolls (ProbeCache.poll_head hline))
      | cons q behind =>
        obtain ⟨-, -, rest, hq⟩ := hline
        obtain ⟨-, -, hmove⟩ := hw.head_canMove hv hq
        -- the head of the queue stands on the same slot
        obtain ⟨phase, hcq, hphase⟩ : ∃ phase, (w.caches (env.inst r)).caller q = some phase ∧
            phase.slot = s := by
          rcases (hw.linked.wf _).mem_queue (show q ∈ (w.caches (env.inst r)).queue s by
            rw [hq]; simp) with hcq | ⟨since, hcq⟩
          · exact ⟨_, hcq, rfl⟩
          · exact ⟨_, hcq, rfl⟩
        have hi := hw.linked.inst_of_caller hcq
        have hrole := (hw.linked.inside hc).role
        rw [← hi] at hcq
        have hroleq := (hw.linked.inside hcq).role
        rw [hphase, hi] at hroleq
        have hnodup := (hw.linked.wf (env.inst r)).nodup s
        rw [hq] at hnodup
        refine Or.inr ⟨q, behind ++ r :: rest, ?_, hi, hroleq.trans hrole.symm, hq, by simp,
          hmove.enabled⟩
        intro heq
        subst heq
        simp at hnodup

/-- **No deadlock.** At every point of every run, a request that has come and is
not over can take a step, or its client has yet to send, or it waits in the
queue of its key, behind a request for the same key that can take a step. That
S3 serves its call or fails it, and that the reply comes back, are steps of a
request like its own actions. -/
theorem no_deadlock {ok : World → Label → Prop} {objects : Hash → Option Bytes} {ls : List Label}
    (hrun : Run (World.step env) ok (init objects) ls w) (harrived : w.tasks r ≠ .absent)
    (hopen : ¬ (w.tasks r).Over) :
    Execution.Enabled (World.step env) (Label.Advances r) w ∨
    (∃ ready item k, w.tasks r = .ready (.act (.read ready item) k) ∧ w.clock < ready) ∨
    ∃ s q behind, q ≠ r ∧ env.inst q = env.inst r ∧ env.role q = env.role r ∧
      (w.caches (env.inst r)).queue s = q :: behind ∧ r ∈ behind ∧
      Execution.Enabled (World.step env) (Label.Advances q) w := by
  have hw := inside_of_run hrun
  by_cases hacquire : ∃ s k, w.tasks r = .ready (.act (.acquire s) k)
  · obtain ⟨s, k, htask⟩ := hacquire
    rcases hw.enters_or_queues htask with henters | hqueues
    · exact Or.inl henters
    · exact Or.inr (Or.inr ⟨s, hqueues⟩)
  · by_cases hread : ∃ ready item k, w.tasks r = .ready (.act (.read ready item) k) ∧
        w.clock < ready
    · exact Or.inr (Or.inl hread)
    · refine Or.inl (hw.canMove harrived hopen ?_ ?_).enabled
      · intro s k htask
        exact absurd ⟨s, k, htask⟩ hacquire
      · intro ready item k htask
        by_contra hlate
        exact hread ⟨ready, item, k, htask, Nat.lt_of_not_le hlate⟩

/-- Two GETs of a key that is not there: the first runs its probe, and the second
waits in the queue. -/
def twoGets : List Label :=
  [.arrive 0, .arrive 1, .run 0, .run 0, .run 0, .run 0, .run 1, .run 1, .run 1]

omit [RustChar] in
/-- The second of two GETs waits behind the first, which can get on. -/
theorem queuedGet_not_stuck : ∃ w,
    Run (@World.step asciiChars (exampleEnv [])) (fun _ _ => true = true) (init fun _ => none)
      twoGets w ∧
    (@Execution.Enabled _ _ (@World.step asciiChars (exampleEnv [])) (Label.Advances 1) w ∨
    (∃ ready item k, w.tasks 1 = .ready (.act (.read ready item) k) ∧ w.clock < ready) ∨
    ∃ s q behind, q ≠ 1 ∧ (exampleEnv []).inst q = (exampleEnv []).inst 1 ∧
      @Env.role asciiChars (exampleEnv []) q = @Env.role asciiChars (exampleEnv []) 1 ∧
      (w.caches ((exampleEnv []).inst 1)).queue s = q :: behind ∧ 1 ∈ behind ∧
      @Execution.Enabled _ _ (@World.step asciiChars (exampleEnv [])) (Label.Advances q) w) := by
  let _ : RustChar := asciiChars
  obtain ⟨w, hrun, harrived, hopen, hkept⟩ : ∃ w, Run (World.step (exampleEnv []))
      (fun _ _ => true = true) (init fun _ => none) twoGets w ∧ ¬ w.tasks 1 = .absent ∧
      (w.tasks 1).response = none ∧ ((w.caches 0).caller 1).isSome = true :=
    exists_run_of_exec (fun _ _ h => h)
      (show (exec _ (fun _ _ => true) _ _).any _ = true by decide)
  refine ⟨w, hrun, no_deadlock hrun harrived ?_⟩
  intro hover
  rcases hover with ⟨response, hans⟩ | hdropped
  · rw [hans] at hopen
    cases hopen
  · rw [show (w.caches 0).caller 1 = none from (inside_of_run hrun).gone hdropped] at hkept
    cases hkept

end World

end NxCacheServer.System
