import Mathlib.Data.Countable.Basic
import NxCacheServer.System.Sequential
import NxCacheServer.System.Waiting

/-!
# Every request is answered

Whatever else goes on, a request that has come is answered, unless its client
goes away first: of the scheduler, S3 and the clock only fairness is assumed
(`Unneglected`), of the replies of S3 nothing at all. A task gets on only so
often (`Task.then_wellFounded`), and it gets on at last: in a queue nobody is
overtaken, and whoever is at the head gets on too.

Clients are assumed to play their part: every body is sent to its end or breaks
off (`Body`). The server reads a body without a timeout, so one that stays open
without another byte would be waited for without an end.

None of this depends on the bucket, so it holds where the bucket is not only
changed by requests (`openStep`), which is what a deployment needs.

The measure has two parts. The program of a task gets smaller with each answered
action; a task in a queue does not change, but the callers ahead of it become fewer,
and each of them leaves after finitely many of its own steps.
-/

namespace NxCacheServer.System

open NxCacheServer.Domain NxCacheServer.Infra NxCacheServer.Server NxCacheServer.Lib

namespace World

variable [RustChar] {env : Env} {w w' : World} {l : Label} {r q : ReqId}

/-! ## Where the bucket is not theirs alone -/

/-- A step of the requests, or something else happens to the bucket. -/
def openStep (env : Env) (w : World) : Label ⊕ Bucket → Option World
  | .inl l => w.step env l
  | .inr bucket => some { w with bucket := bucket }

/-- The steps by which `r` gets on. -/
def Forward (r : ReqId) : Label ⊕ Bucket → Prop
  | .inl l => l.Advances r
  | .inr _ => False

section

variable {lb : Label ⊕ Bucket}

theorem open_cases (h : openStep env w lb = some w') :
    (∃ l, lb = .inl l ∧ w.step env l = some w') ∨ ∃ bucket, w' = { w with bucket := bucket } := by
  cases lb with
  | inl l => exact Or.inl ⟨l, rfl, h⟩
  | inr bucket =>
    cases h
    exact Or.inr ⟨bucket, rfl⟩

/-- Who is inside a cache does not depend on the bucket. -/
theorem Inside.openStep (hw : Inside env w) (h : World.openStep env w lb = some w') :
    Inside env w' := by
  rcases open_cases h with ⟨l, -, h⟩ | ⟨bucket, rfl⟩
  · exact hw.step h
  · exact ⟨⟨hw.linked.tracks, hw.linked.wf, hw.linked.outside, hw.linked.inside,
      hw.linked.stamp⟩, hw.needed, hw.gone⟩

/-- A task gets on, or stays as it is, or is dropped. -/
theorem then_of_openStep (h : openStep env w lb = some w') (harrived : w.tasks r ≠ .absent) :
    w'.tasks r = w.tasks r ∨ Task.Then (w.tasks r) (w'.tasks r) ∨ w'.tasks r = .dropped := by
  rcases open_cases h with ⟨l, -, h⟩ | ⟨bucket, rfl⟩
  · exact then_of_step h harrived
  · exact Or.inl rfl

theorem CanMove.openStep (hr : CanMove env w r) (hl : Forward r lb)
    (h : World.openStep env w lb = some w') : Task.Then (w.tasks r) (w'.tasks r) := by
  cases lb with
  | inl l => exact hr.step hl h
  | inr bucket => exact absurd hl not_false

theorem CanMove.forward (hr : CanMove env w r) :
    Execution.Enabled (World.openStep env) (Forward r) w := by
  obtain ⟨l, w', hl, h, -⟩ := hr
  exact ⟨.inl l, hl, by rw [World.openStep, h]; rfl⟩

/-- Who waits for a cell gets on, or is dropped, or waits where it did; or it has
just got into the queue. -/
theorem acquire_openStep {s : SlotId} {k : Acquired → Async Response}
    (h : openStep env w lb = some w') (htask : w.tasks r = .ready (.act (.acquire s) k)) :
    Task.Then (w.tasks r) (w'.tasks r) ∨ w'.tasks r = .dropped ∨
      w'.tasks r = w.tasks r ∧
        ((w'.caches (env.inst r)).caller r = (w.caches (env.inst r)).caller r ∨
          ∃ s', (w.caches (env.inst r)).caller r = some (.holding s') ∧
            (w'.caches (env.inst r)).caller r = some (.queued s')) := by
  rcases open_cases h with ⟨l, -, h⟩ | ⟨bucket, rfl⟩
  · exact acquire_step h htask
  · exact Or.inr (Or.inr ⟨rfl, Or.inl rfl⟩)

/-- A request that enters its cell gets on, or joins the queue. -/
theorem enter_openStep {s : SlotId} {k : Acquired → Async Response} (hl : Forward r lb)
    (h : openStep env w lb = some w') (htask : w.tasks r = .ready (.act (.acquire s) k)) :
    Task.Then (w.tasks r) (w'.tasks r) ∨ w'.tasks r = w.tasks r ∧
      ∃ s', (w.caches (env.inst r)).caller r = some (.holding s') ∧
        (w'.caches (env.inst r)).caller r = some (.queued s') := by
  cases lb with
  | inl l =>
    obtain rfl : l = .run r := advances_ready hl htask h
    exact enter_step h htask
  | inr bucket => exact absurd hl not_false

theorem Linked.value_openStep {i : InstId} {s : SlotId} {v : Bool} (hw : Linked env w)
    (h : openStep env w lb = some w') (hs : s < (w.caches i).fresh)
    (hv : (w.caches i).value s = some v) : (w'.caches i).value s = some v := by
  rcases open_cases h with ⟨l, -, h⟩ | ⟨bucket, rfl⟩
  · exact hw.value_step h hs hv
  · exact hv

theorem Inside.inLine_openStep {s : SlotId} {i : InstId} {ahead : List CallerId}
    (hw : Inside env w) (h : World.openStep env w lb = some w')
    (hline : (w.caches i).InLine r s ahead)
    (hstays : (w'.caches i).caller r = some (.queued s)) :
    (∃ v, (w'.caches i).value s = some v) ∨ (w'.caches i).InLine r s ahead ∨
      ∃ ahead', ahead'.length < ahead.length ∧ (w'.caches i).InLine r s ahead' := by
  rcases open_cases h with ⟨l, -, h⟩ | ⟨bucket, rfl⟩
  · exact hw.inLine_step h hline hstays
  · exact Or.inr (Or.inl hline)

theorem clock_of_openStep (h : openStep env w lb = some w') : w.clock ≤ w'.clock := by
  rcases open_cases h with ⟨l, -, h⟩ | ⟨bucket, rfl⟩
  · exact clock_of_step h
  · exact Nat.le_refl _

end

/-! ## Runs that neglect nobody -/

/-- Every request that can get on does at last, and time goes on. -/
structure Heeded (env : Env) (x : Execution (openStep env)) : Prop where
  start : ∃ objects, x.state 0 = init objects
  fair : ∀ r, x.Fair (Forward r)
  time : ∀ t, ∃ n, t ≤ (x.state n).clock

/-- `r` is no longer at `task`. -/
def GotOn (r : ReqId) (task : Task) (w : World) : Prop :=
  Task.Then task (w.tasks r) ∨ w.tasks r = .dropped

/-- `r` waits for a cell that is set. -/
def Told (env : Env) (r : ReqId) (task : Task) (s : SlotId) (w : World) : Prop :=
  w.tasks r = task ∧ (w.caches (env.inst r)).caller r = some (.queued s) ∧
    ∃ v, (w.caches (env.inst r)).value s = some v

/-- `r` waits in the queue of an empty cell, behind `ahead`. -/
def Waits (env : Env) (r : ReqId) (task : Task) (s : SlotId) (ahead : List CallerId) (w : World) :
    Prop :=
  w.tasks r = task ∧ (w.caches (env.inst r)).InLine r s ahead

/-- The wait of `r` behind `n` others has got shorter, or is over. -/
def Closer (env : Env) (r : ReqId) (task : Task) (s : SlotId) (n : Nat) (w : World) : Prop :=
  GotOn r task w ∨ Told env r task s w ∨ ∃ ahead, ahead.length < n ∧ Waits env r task s ahead w

namespace Heeded

variable {x : Execution (openStep env)} {task : Task} {P B : World → Prop} {s : SlotId}
  {k : Acquired → Async Response} {ahead behind : List CallerId}

variable (hx : Heeded env x)

include hx

theorem inside (n : Nat) : Inside env (x.state n) := by
  obtain ⟨objects, hinit⟩ := hx.start
  exact x.invariant (by rw [hinit]; exact inside_init) (fun _ _ _ hw h => hw.openStep h) n

/-- A request that can get on as long as `P` lasts gets on, unless `B` comes
before. -/
theorem gets_on (harrived : task ≠ .absent) (htask : ∀ w, P w → w.tasks r = task)
    (hkeep : ∀ n, P (x.state n) → (x.state (n + 1)).tasks r = task →
      P (x.state (n + 1)) ∨ B (x.state (n + 1)))
    (hmove : ∀ n, P (x.state n) → CanMove env (x.state n) r) :
    x.LeadsTo P (fun w => B w ∨ GotOn r task w) := by
  refine (hx.fair r).leadsTo ?_ ?_ ?_
  · intro n hP
    have hn := htask _ hP
    rcases then_of_openStep (x.next n) (by rw [hn]; exact harrived) with hsame | hthen | hdropped
    · exact (hkeep n hP (hsame.trans hn)).imp_right Or.inl
    · rw [hn] at hthen
      exact Or.inr (Or.inr (Or.inl hthen))
    · exact Or.inr (Or.inr (Or.inr hdropped))
  · intro n hP
    exact (hmove n hP).forward
  · intro n hP hl
    have hthen := (hmove n hP).openStep hl (x.next n)
    rw [htask _ hP] at hthen
    exact Or.inr (Or.inl hthen)

/-- A cell that is set lets its caller go. -/
theorem told_gets_on (htask : task = .ready (.act (.acquire s) k)) :
    x.LeadsTo (Told env r task s) (GotOn r task) := by
  subst htask
  refine (hx.gets_on (B := GotOn r (.ready (.act (.acquire s) k))) (by simp) (fun w hw => hw.1)
    ?_ ?_).mono (fun _ hw => hw) (fun _ hw => hw.elim id id)
  · intro n hn htask'
    obtain ⟨htask, hc, v, hv⟩ := hn
    have hw := hx.inside n
    rcases acquire_openStep (x.next n) htask with hthen | hdropped | ⟨-, hcaller | ⟨s', hc', -⟩⟩
    · rw [htask] at hthen
      exact Or.inr (Or.inl hthen)
    · exact Or.inr (Or.inr hdropped)
    · have hs : s < ((x.state n).caches (env.inst r)).fresh := (hw.linked.wf _).caller_lt hc
      exact Or.inl ⟨htask', hcaller.trans hc, v, hw.linked.value_openStep (x.next n) hs hv⟩
    · rw [hc] at hc'
      cases hc'
  · intro n hn
    obtain ⟨htask, hc, v, hv⟩ := hn
    refine (hx.inside n).canMove (by rw [htask]; simp) (by rw [htask]; simp [Task.Over]) ?_ ?_
    · intro s' k' _
      exact ⟨_, _, ProbeCache.poll_set hc hv⟩
    · intro ready item k' htask'
      rw [htask] at htask'
      cases htask'

/-- A request that waits in a queue still waits after a step, or comes closer. -/
theorem waits_step (htask : task = .ready (.act (.acquire s) k)) (n : Nat)
    (hn : Waits env r task s ahead (x.state n)) :
    Waits env r task s ahead (x.state (n + 1)) ∨
      Closer env r task s ahead.length (x.state (n + 1)) := by
  obtain ⟨htask', hline⟩ := hn
  have hw := hx.inside n
  rcases acquire_openStep (x.next n) (htask'.trans htask) with
    hthen | hdropped | ⟨hsame, hcaller | ⟨s', hc', -⟩⟩
  · rw [htask'] at hthen
    exact Or.inr (Or.inl (Or.inl hthen))
  · exact Or.inr (Or.inl (Or.inr hdropped))
  · have hc := hcaller.trans hline.1
    rcases hw.inLine_openStep (x.next n) hline hc with hset | hline' | ⟨ahead', hlt, hline'⟩
    · exact Or.inr (Or.inr (Or.inl ⟨hsame.trans htask', hc, hset⟩))
    · exact Or.inl ⟨hsame.trans htask', hline'⟩
    · exact Or.inr (Or.inr (Or.inr ⟨ahead', hlt, hsame.trans htask', hline'⟩))
  · rw [hline.1] at hc'
    cases hc'

/-- At the head of the queue it is its turn. -/
theorem head_gets_on (htask : task = .ready (.act (.acquire s) k)) :
    x.LeadsTo (Waits env r task s []) (Closer env r task s 0) := by
  subst htask
  refine (hx.gets_on (B := Closer env r (.ready (.act (.acquire s) k)) s 0) (by simp)
    (fun w hw => hw.1) (fun n hn _ => hx.waits_step rfl n hn) ?_).mono (fun _ hw => hw)
    (fun _ hw => hw.elim id Or.inl)
  intro n hn
  obtain ⟨htask, hline⟩ := hn
  refine (hx.inside n).canMove (by rw [htask]; simp) (by rw [htask]; simp [Task.Over]) ?_ ?_
  · intro s' k' _
    exact ⟨_, _, ProbeCache.poll_head hline⟩
  · intro ready item k' htask'
    rw [htask] at htask'
    cases htask'

/-- The request at the head of the queue comes to its end, if it does not leave
the queue before. -/
theorem behind_gets_on (htask : task = .ready (.act (.acquire s) k)) :
    x.LeadsTo (Waits env r task s (q :: behind))
      (Closer env r task s (q :: behind).length) := by
  have hhead : ∀ n, Waits env r task s (q :: behind) (x.state n) →
      (x.state n).tasks q ≠ .absent ∧ ¬ ((x.state n).tasks q).Over ∧
        CanMove env (x.state n) q := by
    intro n hn
    obtain ⟨-, -, hv, behind', hq⟩ := hn
    exact (hx.inside n).head_canMove hv hq
  -- the head has only so much to do
  refine .wellFounded Task.then_wellFounded (fun w => w.tasks q) ?_
  intro taskq
  refine (hx.fair q).leadsTo ?_ ?_ ?_
  · intro n hn
    obtain ⟨hn, rfl⟩ := hn
    rcases hx.waits_step htask n hn with hn' | hcloser
    · rcases then_of_openStep (x.next n) (hhead n hn).1 with hsame | hthen | hdropped
      · exact Or.inl ⟨hn', hsame⟩
      · exact Or.inr (Or.inl ⟨hn', hthen⟩)
      · exact absurd (Or.inr hdropped) (hhead _ hn').2.1
    · exact Or.inr (Or.inr hcloser)
  · intro n hn
    exact (hhead n hn.1).2.2.forward
  · intro n hn hl
    obtain ⟨hn, rfl⟩ := hn
    rcases hx.waits_step htask n hn with hn' | hcloser
    · exact Or.inl ⟨hn', (hhead n hn).2.2.openStep hl (x.next n)⟩
    · exact Or.inr hcloser

/-- A queue comes to everybody in it. -/
theorem waits_gets_on (htask : task = .ready (.act (.acquire s) k)) (ahead : List CallerId) :
    x.LeadsTo (Waits env r task s ahead) (GotOn r task) := by
  induction hlen : ahead.length using Nat.strong_induction_on generalizing ahead with
  | _ n ih =>
    have hcloser : x.LeadsTo (Closer env r task s n) (GotOn r task) := by
      intro m hm
      rcases hm with hgot | htold | ⟨ahead', hlt, hwaits⟩
      · exact ⟨m, Nat.le_refl m, hgot⟩
      · exact hx.told_gets_on htask m htold
      · exact ih _ hlt ahead' rfl m hwaits
    subst hlen
    cases ahead with
    | nil => exact (hx.head_gets_on htask).trans hcloser
    | cons q behind => exact (hx.behind_gets_on htask).trans hcloser

/-- Who is queued gets on: by descent along its place in the queue, where the head
gets on too. -/
theorem queued_gets_on (htask : task = .ready (.act (.acquire s) k)) :
    x.LeadsTo (fun w => w.tasks r = task ∧
      (w.caches (env.inst r)).caller r = some (.queued s)) (GotOn r task) := by
  intro n hn
  obtain ⟨htask', hc⟩ := hn
  cases hv : ((x.state n).caches (env.inst r)).value s with
  | some v => exact hx.told_gets_on htask n ⟨htask', hc, v, hv⟩
  | none =>
    obtain ⟨ahead, hline⟩ := ((hx.inside n).linked.wf _).inLine hc hv
    exact hx.waits_gets_on htask ahead n ⟨htask', hline⟩

/-- Who waits for a cell gets on, from wherever it stands. -/
theorem acquire_gets_on (htask : task = .ready (.act (.acquire s) k)) :
    x.LeadsTo (fun w => w.tasks r = task) (GotOn r task) := by
  have henters : x.LeadsTo (fun w => w.tasks r = task ∧
      (w.caches (env.inst r)).caller r = some (.holding s)) (fun w => (w.tasks r = task ∧
        (w.caches (env.inst r)).caller r = some (.queued s)) ∨ GotOn r task w) := by
    refine (hx.fair r).leadsTo ?_ ?_ ?_
    · intro n hn
      obtain ⟨htask', hc⟩ := hn
      rcases acquire_openStep (x.next n) (htask'.trans htask) with
        hthen | hdropped | ⟨hsame, hcaller | ⟨s', hc', hjoined⟩⟩
      · rw [htask'] at hthen
        exact Or.inr (Or.inr (Or.inl hthen))
      · exact Or.inr (Or.inr (Or.inr hdropped))
      · exact Or.inl ⟨hsame.trans htask', hcaller.trans hc⟩
      · rw [hc] at hc'
        cases hc'
        exact Or.inr (Or.inl ⟨hsame.trans htask', hjoined⟩)
    · intro n hn
      obtain ⟨htask', hc⟩ := hn
      obtain ⟨cache, polled, hpoll⟩ := ProbeCache.poll_holding (x.state n).clock hc
      refine ⟨.inl (.run r), rfl, ?_⟩
      rw [openStep, World.step, htask'.trans htask]
      cases polled <;> simp [localStep, hpoll]
    · intro n hn hl
      obtain ⟨htask', hc⟩ := hn
      rcases enter_openStep hl (x.next n) (htask'.trans htask) with
        hthen | ⟨hsame, s', hc', hjoined⟩
      · rw [htask'] at hthen
        exact Or.inr (Or.inl hthen)
      · rw [hc] at hc'
        cases hc'
        exact Or.inl ⟨hsame.trans htask', hjoined⟩
  intro n htask'
  rcases (hx.inside n).holding_or_queued (htask'.trans htask) with hc | hc
  · exact henters.orElse (hx.queued_gets_on htask) n ⟨htask', hc⟩
  · exact hx.queued_gets_on htask n ⟨htask', hc⟩

/-- The client sends the next piece of its body in time. -/
theorem read_gets_on {ready : Instant} {item : Item} {k : Unit → Async Response}
    (htask : task = .ready (.act (.read ready item) k)) :
    x.LeadsTo (fun w => w.tasks r = task) (GotOn r task) := by
  subst htask
  have hready : x.LeadsTo (fun w => w.tasks r = .ready (.act (.read ready item) k))
      (fun w => ready ≤ w.clock) := .time (fun n => clock_of_openStep (x.next n)) hx.time ready
  have hkeep : x.Unless (fun w => w.tasks r = .ready (.act (.read ready item) k))
      (GotOn r (.ready (.act (.read ready item) k))) := by
    intro n htask
    rcases then_of_openStep (x.next n) (by rw [htask]; simp) with hsame | hthen | hdropped
    · exact Or.inl (hsame.trans htask)
    · rw [htask] at hthen
      exact Or.inr (Or.inl hthen)
    · exact Or.inr (Or.inr hdropped)
  refine ((hready.lasting hkeep).orElse ?_).mono (fun _ htask => ⟨htask, htask⟩) (fun _ h => h)
  refine (hx.gets_on (B := fun _ => False) (by simp) (fun w hw => hw.1) ?_ ?_).mono
    (fun _ hw => hw) (fun _ hw => hw.elim False.elim id)
  · intro n hn htask'
    exact Or.inl ⟨htask', Nat.le_trans hn.2 (clock_of_openStep (x.next n))⟩
  · intro n hn
    obtain ⟨htask, hle⟩ := hn
    refine (hx.inside n).canMove (by rw [htask]; simp) (by rw [htask]; simp [Task.Over]) ?_ ?_
    · intro s k' htask'
      rw [htask] at htask'
      cases htask'
    · intro ready' item' k' htask'
      rw [htask] at htask'
      cases htask'
      exact hle

/-- Every request that has come and is not over gets on. -/
theorem open_gets_on (harrived : task ≠ .absent) (hopen : ¬ task.Over) :
    x.LeadsTo (fun w => w.tasks r = task) (GotOn r task) := by
  by_cases hacquire : ∃ s k, task = .ready (.act (.acquire s) k)
  · obtain ⟨s, k, htask⟩ := hacquire
    exact hx.acquire_gets_on htask
  · by_cases hread : ∃ ready item k, task = .ready (.act (.read ready item) k)
    · obtain ⟨ready, item, k, htask⟩ := hread
      exact hx.read_gets_on htask
    -- anything else it can do at once
    · refine (hx.gets_on (B := fun _ => False) harrived (fun w hw => hw)
        (fun n _ htask' => Or.inl htask') ?_).mono (fun _ hw => hw)
        (fun _ hw => hw.elim False.elim id)
      intro n htask
      subst htask
      exact (hx.inside n).canMove harrived hopen
        (fun s k htask => absurd ⟨s, k, htask⟩ hacquire)
        (fun ready item k htask => absurd ⟨ready, item, k, htask⟩ hread)

/-- Whoever has come is answered, or goes away. -/
theorem ends : x.LeadsTo (fun w => w.tasks r ≠ .absent) (fun w => (w.tasks r).Over) := by
  refine .wellFounded Task.then_wellFounded (fun w => w.tasks r) ?_
  intro task n hn
  obtain ⟨harrived, htask⟩ := hn
  by_cases hover : task.Over
  · exact ⟨n, Nat.le_refl n, Or.inr (by rw [htask]; exact hover)⟩
  · rw [htask] at harrived
    obtain ⟨m, hnm, hthen | hdropped⟩ := hx.open_gets_on harrived hover n htask
    · refine ⟨m, hnm, Or.inl ⟨?_, hthen⟩⟩
      intro habsent
      rw [habsent] at hthen
      cases hthen
    · exact ⟨m, hnm, Or.inr (Or.inr hdropped)⟩

end Heeded

/-! ## Where it is -/

/-- Every request that can get on does at last, and time goes on. -/
structure Unneglected (env : Env) (x : Execution (World.step env)) : Prop where
  start : ∃ objects, x.state 0 = init objects
  fair : ∀ r, x.Fair (Label.Advances r)
  time : ∀ t, ∃ n, t ≤ (x.state n).clock

/-- Nothing else happens to the bucket. -/
def opened (x : Execution (World.step env)) : Execution (openStep env) where
  state := x.state
  label n := .inl (x.label n)
  next := x.next

/-- An execution of the requests alone is one in which nothing else happens to the
bucket. -/
theorem Unneglected.heeded {x : Execution (World.step env)} (hx : Unneglected env x) :
    Heeded env (opened x) where
  start := hx.start
  fair r := by
    intro n henabled
    refine hx.fair r n fun m hnm => ?_
    obtain ⟨lb, hl, h⟩ := henabled m hnm
    cases lb with
    | inl l => exact ⟨l, hl, h⟩
    | inr bucket => exact absurd hl not_false
  time := hx.time

/-- **Every request is answered.** In a run that neglects nobody, whatever
replies S3 gives, however probes end and whoever else comes and goes, every
request that has come is answered at last, unless its client goes away. The body
of every request ends or breaks off at some instant. -/
theorem every_request_ends {x : Execution (World.step env)} (hx : Unneglected env x) {n : Nat}
    (harrived : (x.state n).tasks r ≠ .absent) :
    ∃ m, n ≤ m ∧ ((∃ response, (x.state m).tasks r = .answered response) ∨
      (x.state m).tasks r = .dropped) :=
  hx.heeded.ends n harrived

/-- The requests and the clock. -/
def Turns : Option ReqId → Label → Prop
  | some r => Label.Advances r
  | none => fun l => l = .tick 1

/-- Any run goes on as an execution that neglects nobody. -/
theorem exists_unneglected {ok : World → Label → Prop} {objects : Hash → Option Bytes}
    {ls : List Label} (hrun : Run (World.step env) ok (init objects) ls w) :
    ∃ x, Unneglected env x ∧ x.state ls.length = w := by
  have hidle : ∀ w, (World.step env w (.tick 1)).isSome = true := fun _ => rfl
  have hturns : ∀ c w, Execution.Enabled (World.step env) (Turns c) w →
      Execution.Enabled (World.step env) (fun l => Turns c l ∧ True) w := by
    intro c w henabled
    obtain ⟨l, hl, h⟩ := henabled
    exact ⟨l, ⟨hl, trivial⟩, h⟩
  obtain ⟨y, hy, -, hfair⟩ := Execution.exists_fair hidle trivial hturns w
  obtain ⟨x, hinit, hcont⟩ := Execution.exists_continues hrun hy
  have hfair : ∀ c, x.Fair (Turns c) := fun c => Execution.Fair.of_continues hcont (hfair c)
  refine ⟨x, ⟨⟨objects, hinit⟩, fun r => hfair (some r), ?_⟩, (hcont 0).1.trans hy⟩
  refine (hfair none).unbounded (fun _ => ⟨_, rfl, rfl⟩) World.clock
    (fun n => clock_of_step (x.next n)) ?_
  intro w l w' hl h
  obtain rfl : l = .tick 1 := hl
  cases h
  exact Nat.lt_succ_self _

omit [RustChar] in
theorem queuedGet_ends : ∃ x : Execution (@World.step asciiChars (exampleEnv [])),
    @Unneglected asciiChars (exampleEnv []) x ∧
    ((x.state 9).caches 0).caller 1 = some (.queued 0) ∧
    ∃ m, 9 ≤ m ∧ ((∃ response, (x.state m).tasks 1 = .answered response) ∨
      (x.state m).tasks 1 = .dropped) := by
  let _ : RustChar := asciiChars
  obtain ⟨w, hrun, hqueued, hcame⟩ : ∃ w, Run (World.step (exampleEnv []))
      (fun _ _ => true = true) (init fun _ => none) twoGets w ∧
      (w.caches 0).caller 1 = some (.queued 0) ∧ ¬ w.tasks 1 = .absent :=
    exists_run_of_exec (fun _ _ h => h)
      (show (exec _ (fun _ _ => true) _ _).any _ = true by decide)
  obtain ⟨x, hx, hstate⟩ := exists_unneglected hrun
  have hnine : x.state 9 = w := hstate
  refine ⟨x, hx, by rw [hnine]; exact hqueued, every_request_ends hx ?_⟩
  rw [hnine]
  exact hcame

end World

end NxCacheServer.System
