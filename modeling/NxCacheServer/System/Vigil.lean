import NxCacheServer.System.Alarm
import NxCacheServer.System.Booting

/-!
# The self-probe goes on

An instance that listens goes on probing for good: each self-probe is over at
last, and the next one is due a minute after it was, so none is left out, however
late they are (`selfProbe_forever`).

`Gapless` is the invariant: the probes that are over were due at `t₀`,
`t₀ + 60 s` and so on, and the next one is due next. What a probe under way may
still do, `Punctual` says.

A tick is due at a fixed time, and the loop takes it when the probe before it is over.
So the probes of an instance are in the order of their due times, one at a time, and
which one is next can be read off how many there have been.

The steps of the proof are the legs of one round: a probe under way comes to its end
(`underWay_waiting`), a prober that waits gets its tick (`waiting_waiting`), and so
one round leads to the next (`round_round`), as many as one likes.
-/

namespace NxCacheServer.System

open NxCacheServer.Bin NxCacheServer.Domain NxCacheServer.Infra NxCacheServer.Server
  NxCacheServer.Lib

/-- The first `k` times that a probe is due, from `t₀` on. -/
def rounds (t₀ : Instant) (k : Nat) : List Instant :=
  (List.range k).map fun j => t₀ + j * selfProbeInterval

/-- One probe more is due one interval after the last. -/
theorem rounds_succ {t₀ : Instant} {k : Nat} :
    rounds t₀ (k + 1) = rounds t₀ k ++ [t₀ + k * selfProbeInterval] := by
  simp [rounds, List.range_succ]

/-- The probe is over. -/
def ProbeEntry.isFinished (entry : ProbeEntry) : Bool :=
  match entry.event with
  | .finished _ => true
  | _ => false

namespace Stage

/-- When the probe under way was due, or else the next one is. -/
def next : Stage → Option Instant
  | .running _ (.waiting ticker) => some ticker.deadline
  | .running _ (.probing _ due _) => some due
  | .running _ (.asking _ due _ _ _) => some due
  | _ => none

/-- The probe that was due at `due` is under way: what is left of it, and the phases
of its next action. -/
inductive Probing (ticker : Ticker) (due : Instant) : Async ProbeLine × Nat → Stage → Prop
  | probing {p : Async ProbeLine} :
      Probing ticker due (p, 2) (.running true (.probing ticker due p))
  | asking {call : S3Call} {k : call.Reply → Async ProbeLine} :
      Probing ticker due (.act (.s3 call) k, 1) (.running true (.asking ticker due call none k))
  | told {call : S3Call} {reply : call.Reply} {k : call.Reply → Async ProbeLine} :
      Probing ticker due (.act (.s3 call) k, 0)
        (.running true (.asking ticker due call (some reply) k))

end Stage

namespace Deployment

variable {plan : Plan} {d d' : Deployment} {l : DeployLabel} {i : InstId} {n : Nat} {due : Instant}
  {event : ProbeEvent} {ticker : Ticker}

/-- When the self-probes of `i` that are over were due, oldest first. -/
def finished (d : Deployment) (i : InstId) : List Instant :=
  ((d.entries i).filter ProbeEntry.isFinished).reverse.map ProbeEntry.due

/-- Only a report ends a probe, and one of its own instance. -/
theorem finished_noteProbe {i' : InstId} (h : i' = i → ∀ line, event ≠ .finished line) :
    (d.noteProbe i due event).finished i' = d.finished i' := by
  unfold finished
  rw [entries_noteProbe]
  split
  next heq =>
    subst heq
    rw [List.filter_cons_of_neg]
    intro hfinished
    cases event with
    | finished line => exact h rfl line rfl
    | _ => cases hfinished
  next => rfl

theorem finished_snoc {line : ProbeLine} :
    (d.noteProbe i due (.finished line)).finished i = d.finished i ++ [due] := by
  unfold finished
  rw [entries_noteProbe, if_pos rfl, List.filter_cons_of_pos rfl, List.reverse_cons,
    List.map_append]
  rfl

/-- The probes that are over are those with a report. -/
theorem mem_finished : due ∈ d.finished i ↔
    ∃ entry ∈ d.entries i, entry.due = due ∧ ∃ line, entry.event = .finished line := by
  have hfinished : ∀ entry : ProbeEntry,
      entry.isFinished = true ↔ ∃ line, entry.event = .finished line := by
    intro entry
    unfold ProbeEntry.isFinished
    cases entry.event <;> simp
  simp only [finished, List.mem_map, List.mem_reverse, List.mem_filter, hfinished]
  constructor
  · rintro ⟨entry, ⟨hmem, hline⟩, hdue⟩
    exact ⟨entry, hmem, hdue, hline⟩
  · rintro ⟨entry, hmem, hdue, hline⟩
    exact ⟨entry, ⟨hmem, hline⟩, hdue⟩

variable [RustChar]

/-- What an instance has done by way of self-probes is its own. -/
theorem entries_of_other (h : d.step plan l = some d') (hl : l.inst ≠ some i) :
    d'.entries i = d.entries i := by
  cases step_cases h with
  | request _ _ | late _ | start _ | serves _ | exits _ | boots _ _ | puts _ | putServed _
  | putFailed _ | putDelivered _ | binds _ | bindFails _ | probeServed _ _ | probeFailed _ _ => rfl
  | ticks _ _ | finishes _ | calls _ | acts _ _ | probeDelivered _ =>
    rw [entries_noteProbe, if_neg fun heq => hl (congrArg some heq.symm)]
    rfl

theorem finished_of_other (h : d.step plan l = some d') (hl : l.inst ≠ some i) :
    d'.finished i = d.finished i := by
  rw [finished, entries_of_other h hl, finished]

/-! ## No minute is left out -/

/-- The probes that are over were due one after the other, and so is the next. -/
def Gapless (d : Deployment) : Prop :=
  ∀ i, ∃ t₀ k, d.finished i = rounds t₀ k ∧
    ∀ due, (d.stages i).next = some due → due = t₀ + k * selfProbeInterval

omit [RustChar] in
theorem gapless_init {objects : Hash → Option Bytes} : Gapless (init objects) :=
  fun _ => ⟨0, 0, rfl, fun _ hno => by cases hno⟩

/-- The next tick is due one interval after the last, however late that came. -/
theorem Gapless.step (hd : Gapless d) (hpunctual : Punctual d) (h : d.step plan l = some d') :
    Gapless d' := by
  intro i
  by_cases hl : l.inst = some i
  · obtain ⟨t₀, k, hfinished, hnext⟩ := hd i
    have hquiet : ∀ {stage : Stage}, d'.finished i = d.finished i → d'.stages i = stage →
        (∀ due, stage.next = some due → (d.stages i).next = some due) →
        ∃ t₀ k, d'.finished i = rounds t₀ k ∧
          ∀ due, (d'.stages i).next = some due → due = t₀ + k * selfProbeInterval := by
      intro stage hsame hstage hdue
      rw [hstage]
      exact ⟨t₀, k, hsame.trans hfinished, fun due h => hnext due (hdue due h)⟩
    cases step_cases h with
    | request _ _ | late _ => cases hl
    | start _ | serves _ | exits _ | boots _ _ | puts _ | putServed _ | putFailed _
    | putDelivered _ | bindFails _ =>
      obtain rfl := Option.some.inj hl
      exact hquiet rfl stages_self fun due hno => by cases hno
    | @binds i prober hstage =>
      obtain rfl := Option.some.inj hl
      refine hquiet rfl stages_self fun due hdue => ?_
      rw [hstage]
      cases prober <;> exact hdue
    | @ticks i listening prober ticker due hstage hgets =>
      obtain rfl := Option.some.inj hl
      have hsame : ((d.setStage i (.running listening
          (.probing ticker due (selfProbeOnce s3Storage)))).noteProbe i due .started).finished i =
          d.finished i := finished_noteProbe fun _ line hno => by cases hno
      rw [hsame, stages_noteProbe, stages_self]
      cases hgets with
      | first _ =>
        have hnone : d.entries i = [] := (hpunctual i).unticked (by rw [hstage]; trivial)
        refine ⟨due, 0, by rw [finished, hnone]; rfl, fun due' hdue' => ?_⟩
        cases hdue'
        simp
      | next ht =>
        obtain ⟨rfl, -, -⟩ := Ticker.tick_eq_some.mp ht
        refine ⟨t₀, k, hfinished, fun due' hdue' => ?_⟩
        cases hdue'
        exact hnext _ (by rw [hstage]; rfl)
    | @finishes i listening ticker due line hstage =>
      obtain rfl := Option.some.inj hl
      obtain ⟨-, hdeadline, -⟩ := hpunctual.works hstage
      have hdue : due = t₀ + k * selfProbeInterval := hnext due (by rw [hstage]; rfl)
      rw [finished_snoc, stages_noteProbe, stages_self]
      refine ⟨t₀, k + 1, ?_, fun due' hdue' => ?_⟩
      · rw [rounds_succ, hdue]
        exact congrArg (· ++ _) hfinished
      · cases hdue'
        rw [hdeadline, hdue, Nat.add_assoc, Nat.succ_mul]
    | calls hstage | acts _ hstage | probeDelivered hstage =>
      obtain rfl := Option.some.inj hl
      refine hquiet (finished_noteProbe fun _ line hno => by cases hno) stages_self ?_
      intro due hdue
      rw [hstage]
      exact hdue
    | probeServed hstage _ | probeFailed hstage _ =>
      obtain rfl := Option.some.inj hl
      refine hquiet rfl stages_self fun due hdue => ?_
      rw [hstage]
      exact hdue
  · rw [stages_of_other h hl, finished_of_other h hl]
    exact hd i

/-! ## A probe under way -/

/-- The probe that was due at `due` is under way, those of `dues` are over. -/
def UnderWay (i : InstId) (ticker : Ticker) (due : Instant) (dues : List Instant)
    (left : Async ProbeLine × Nat) (d : Deployment) : Prop :=
  (d.stages i).Probing ticker due left ∧ d.finished i = dues

/-- The self-probe waits for its next tick, those of `dues` are over. -/
def Waiting (i : InstId) (ticker : Ticker) (dues : List Instant) (d : Deployment) : Prop :=
  d.stages i = .running true (.waiting ticker) ∧ d.finished i = dues

variable {dues : List Instant} {left : Async ProbeLine × Nat}

omit [RustChar] in
/-- A step of the probe brings it nearer to its end. -/
theorem underWay_setStage {stage : Stage} {left' : Async ProbeLine × Nat}
    (hd' : d'.stages i = stage) (hsame : d'.finished i = d.finished i) (hdues : d.finished i = dues)
    (hstage : stage.Probing ticker due left') (hnearer : Prog.Nearer left' left) :
    ∃ left', Prog.Nearer left' left ∧ UnderWay i ticker due dues left' d' :=
  ⟨left', hnearer, hd'.symm ▸ hstage, hsame.trans hdues⟩

/-- A probe is where it was, comes closer to its end, or is over. -/
theorem underWay_step (hd : UnderWay i ticker due dues left d) (h : d.step plan l = some d') :
    UnderWay i ticker due dues left d' ∧ ¬ l.Probes i ∨
      (∃ left', Prog.Nearer left' left ∧ UnderWay i ticker due dues left' d') ∨
        Waiting i ticker (dues ++ [due]) d' := by
  obtain ⟨hprobing, hdues⟩ := hd
  by_cases hl : l.inst = some i
  · right
    cases step_cases h with
    | request _ _ | late _ => cases hl
    | start hstage | serves hstage | exits hstage | boots hstage _ | puts hstage
    | putServed hstage | putFailed hstage | putDelivered hstage | binds hstage
    | bindFails hstage =>
      obtain rfl := Option.some.inj hl
      rw [hstage] at hprobing
      cases hprobing
    | ticks hstage hgets =>
      obtain rfl := Option.some.inj hl
      rw [hstage] at hprobing
      cases hgets <;> cases hprobing
    | finishes hstage =>
      obtain rfl := Option.some.inj hl
      rw [hstage] at hprobing
      cases hprobing
      exact Or.inr ⟨stages_self, by rw [finished_snoc]; exact congrArg (· ++ _) hdues⟩
    | calls hstage =>
      obtain rfl := Option.some.inj hl
      rw [hstage] at hprobing
      cases hprobing
      exact Or.inl (underWay_setStage stages_self
        (finished_noteProbe fun _ line hno => by cases hno) hdues .asking
        (Prog.nearer_phase Nat.one_lt_two))
    | acts _ hstage =>
      obtain rfl := Option.some.inj hl
      rw [hstage] at hprobing
      cases hprobing
      exact Or.inl (underWay_setStage stages_self
        (finished_noteProbe fun _ line hno => by cases hno) hdues .probing Prog.nearer_answered)
    | probeServed hstage _ | probeFailed hstage _ =>
      obtain rfl := Option.some.inj hl
      rw [hstage] at hprobing
      cases hprobing
      exact Or.inl (underWay_setStage stages_self rfl hdues .told
        (Prog.nearer_phase Nat.one_pos))
    | @probeDelivered i' listening ticker' due' call reply k hstage =>
      obtain rfl := Option.some.inj hl
      rw [hstage] at hprobing
      cases hprobing
      exact Or.inl (underWay_setStage stages_self
        (finished_noteProbe fun _ line hno => by cases hno) hdues .probing
        (@Prog.nearer_answered Act Act.Resp ProbeLine (.s3 call) k reply 2 0))
  · refine Or.inl ⟨⟨?_, ?_⟩, fun hno => hl hno.inst_eq⟩
    · rw [stages_of_other h hl]
      exact hprobing
    · rw [finished_of_other h hl, hdues]

/-- It can always get on: what it has left to do needs nobody but S3. -/
theorem underWay_enabled (hd : Punctual d) (hprobing : (d.stages i).Probing ticker due left) :
    Execution.Enabled (step plan) (DeployLabel.Probes i) d := by
  obtain ⟨stage, hstage⟩ : ∃ stage, d.stages i = stage := ⟨_, rfl⟩
  rw [hstage] at hprobing
  cases hprobing with
  | @probing p =>
    refine ⟨.probe i, rfl, ?_⟩
    cases p with
    | done line => rw [step, hstage]; rfl
    | act e k =>
      obtain ⟨-, -, hallow, -⟩ := hd.works hstage
      cases e with
      | s3 call | now | log line => rw [step, hstage]; rfl
      | _ => exact absurd hallow not_false
  | asking => exact ⟨.serveProbe i .answer, rfl, by rw [step, hstage]; rfl⟩
  | told => exact ⟨.deliverProbe i, rfl, by rw [step, hstage]; rfl⟩

/-! ## A probe to come -/

/-- No probe is under way. -/
def Idle : Prober → Prop
  | .spawned => True
  | .waiting _ => True
  | _ => False

/-- A self-probe that is idle still is after a step, or has got its tick. -/
theorem idle_step {prober : Prober} (hstage : d.stages i = .running true prober)
    (hidle : Idle prober) (h : d.step plan l = some d') :
    d'.stages i = d.stages i ∧ d'.finished i = d.finished i ∧ ¬ l.Probes i ∨
      ∃ ticker due, Gets d.world.clock prober ticker due ∧
        UnderWay i ticker due (d.finished i) (selfProbeOnce s3Storage, 2) d' := by
  by_cases hl : l.inst = some i
  · cases step_cases h with
    | request _ _ | late _ => cases hl
    | start hstage' | serves hstage' | exits hstage' | boots hstage' _ | puts hstage'
    | putServed hstage' | putFailed hstage' | putDelivered hstage' | binds hstage'
    | bindFails hstage' =>
      obtain rfl := Option.some.inj hl
      rw [hstage] at hstage'
      cases hstage'
    | ticks hstage' hgets =>
      obtain rfl := Option.some.inj hl
      rw [hstage] at hstage'
      cases hstage'
      refine Or.inr ⟨_, _, hgets, ?_, finished_noteProbe fun _ line hno => by cases hno⟩
      rw [stages_noteProbe, stages_self]
      exact .probing
    | finishes hstage' | calls hstage' | acts _ hstage' | probeServed hstage' _
    | probeFailed hstage' _ | probeDelivered hstage' =>
      obtain rfl := Option.some.inj hl
      rw [hstage] at hstage'
      cases hstage'
      exact absurd hidle not_false
  · exact Or.inl ⟨stages_of_other h hl, finished_of_other h hl, fun hno => hl hno.inst_eq⟩

theorem tick_enabled {prober : Prober} (hstage : d.stages i = .running true prober)
    (hgets : Gets d.world.clock prober ticker due) :
    Execution.Enabled (step plan) (DeployLabel.Probes i) d := by
  refine ⟨.tick i, rfl, ?_⟩
  rw [step, hstage]
  cases hgets with
  | first ht | next ht =>
    dsimp only
    rw [ht]
    rfl

/-! ## Round after round -/

namespace Attended

variable {x : Execution (step plan)} (hx : Attended plan x)

include hx

theorem punctual (n : Nat) : Punctual (x.state n) ∧ Gapless (x.state n) :=
  hx.invariant (I := fun d => Punctual d ∧ Gapless d) (fun _ => ⟨punctual_init, gapless_init⟩)
    (fun _ _ _ hd h => ⟨hd.1.step h, hd.2.step hd.1 h⟩) n

theorem underWay_waiting (left : Async ProbeLine × Nat) :
    x.LeadsTo (UnderWay i ticker due dues left) (Waiting i ticker (dues ++ [due])) := by
  refine .descent Prog.nearer_wellFounded (F := UnderWay i ticker due dues) ?_ left
  intro left
  exact (hx.probes i).leadsTo_of_step (fun n hn => underWay_step hn (x.next n))
    fun n hn => underWay_enabled (hx.punctual n).1 hn.1

/-- The next probe starts in time, and is over in time. -/
theorem waiting_waiting (deadline : Instant) : x.LeadsTo (Waiting i ⟨deadline⟩ dues)
    (Waiting i ⟨deadline + selfProbeInterval⟩ (dues ++ [deadline])) := by
  have hstep : ∀ n, Waiting i ⟨deadline⟩ dues (x.state n) →
      Waiting i ⟨deadline⟩ dues (x.state (n + 1)) ∧ ¬ (x.label n).Probes i ∨
        UnderWay i ⟨deadline + selfProbeInterval⟩ deadline dues (selfProbeOnce s3Storage, 2)
          (x.state (n + 1)) := by
    intro n hn
    obtain ⟨hstage, rfl⟩ := hn
    rcases idle_step hstage trivial (x.next n) with ⟨hsame, hdues, hno⟩ | ⟨ticker, due, hgets, hway⟩
    · exact Or.inl ⟨⟨hsame.trans hstage, hdues⟩, hno⟩
    · cases hgets with
      | next ht =>
        obtain ⟨rfl, -, hdeadline⟩ := Ticker.tick_eq_some.mp ht
        obtain ⟨deadline'⟩ := ticker
        cases hdeadline
        exact Or.inr hway
  have hkeep : x.Unless (Waiting i ⟨deadline⟩ dues) (UnderWay i ⟨deadline + selfProbeInterval⟩
      deadline dues (selfProbeOnce s3Storage, 2)) :=
    fun n hn => (hstep n hn).imp_left And.left
  have hdue : x.LeadsTo (Waiting i ⟨deadline⟩ dues) (fun d => deadline ≤ d.world.clock) :=
    .time (fun n => clock_of_step (x.next n)) hx.time deadline
  have hstarts : x.LeadsTo
      (fun d => Waiting i ⟨deadline⟩ dues d ∧ deadline ≤ d.world.clock)
      (UnderWay i ⟨deadline + selfProbeInterval⟩ deadline dues (selfProbeOnce s3Storage, 2)) := by
    refine (hx.probes i).leadsTo_of_step ?_ ?_
    · intro n hn
      exact (hstep n hn.1).imp_left fun h =>
        ⟨⟨h.1, Nat.le_trans hn.2 (clock_of_step (x.next n))⟩, h.2⟩
    · intro n hn
      exact tick_enabled hn.1.1 (.next (Ticker.tick_eq_some.mpr ⟨rfl, hn.2, rfl⟩))
  refine (((hdue.lasting hkeep).orElse hstarts).trans (hx.underWay_waiting _)).mono ?_ fun _ h => h
  exact fun _ h => ⟨h, h⟩

theorem spawned_waiting : x.LeadsTo (fun d => d.stages i = .running true .spawned)
    (fun d => ∃ t₀, Waiting i ⟨t₀ + selfProbeInterval⟩ [t₀] d) := by
  have hstep : ∀ n, (x.state n).stages i = .running true .spawned →
      (x.state (n + 1)).stages i = .running true .spawned ∧ ¬ (x.label n).Probes i ∨
        ∃ t₀, UnderWay i ⟨t₀ + selfProbeInterval⟩ t₀ [] (selfProbeOnce s3Storage, 2)
          (x.state (n + 1)) := by
    intro n hstage
    have hnone : (x.state n).finished i = [] := by
      rw [finished, ((hx.punctual n).1 i).unticked (by rw [hstage]; trivial)]
      rfl
    rcases idle_step hstage trivial (x.next n) with ⟨hsame, -, hno⟩ | ⟨ticker, due, hgets, hway⟩
    · exact Or.inl ⟨hsame.trans hstage, hno⟩
    · cases hgets with
      | first ht =>
        obtain ⟨rfl, -, hdeadline⟩ := Ticker.tick_eq_some.mp ht
        obtain ⟨deadline'⟩ := ticker
        cases hdeadline
        rw [hnone] at hway
        exact Or.inr ⟨_, hway⟩
  have hstarts : x.LeadsTo (fun d => d.stages i = .running true .spawned) (fun d =>
      ∃ t₀, UnderWay i ⟨t₀ + selfProbeInterval⟩ t₀ [] (selfProbeOnce s3Storage, 2) d) := by
    refine (hx.probes i).leadsTo_of_step hstep ?_
    intro n hn
    exact tick_enabled hn (.first (Ticker.tick_eq_some.mpr ⟨rfl, Nat.le_refl _, rfl⟩))
  refine hstarts.trans ?_
  intro n hn
  obtain ⟨t₀, hway⟩ := hn
  obtain ⟨m, hnm, hwaits⟩ := hx.underWay_waiting _ n hway
  exact ⟨m, hnm, t₀, hwaits⟩

/-- The first `k` probes are over, and the next is to come. -/
theorem round_round (t₀ : Instant) (k j : Nat) :
    x.LeadsTo (Waiting i ⟨t₀ + k * selfProbeInterval⟩ (rounds t₀ k))
      (Waiting i ⟨t₀ + (k + j) * selfProbeInterval⟩ (rounds t₀ (k + j))) := by
  induction j with
  | zero => exact .of_imp fun n hn => hn
  | succ j ih =>
    refine ih.trans ?_
    have hround : x.LeadsTo (Waiting i ⟨t₀ + (k + j) * selfProbeInterval⟩ (rounds t₀ (k + j)))
        (Waiting i ⟨t₀ + (k + j) * selfProbeInterval + selfProbeInterval⟩
          (rounds t₀ (k + j) ++ [t₀ + (k + j) * selfProbeInterval])) := hx.waiting_waiting _
    rw [← rounds_succ, Nat.add_assoc t₀, ← Nat.succ_mul] at hround
    exact hround

/-- A probe that is under way is one of the rounds. -/
theorem underWay_round {stage : Stage} (hstage : (x.state n).stages i = stage)
    (hprobing : stage.Probing ticker due left)
    (hdeadline : ticker.deadline = due + selfProbeInterval) (hnext : stage.next = some due) :
    ∃ m, n ≤ m ∧ ∃ t₀ k, Waiting i ⟨t₀ + k * selfProbeInterval⟩ (rounds t₀ k) (x.state m) := by
  obtain ⟨t₀, k, hdues, hdue⟩ := (hx.punctual n).2 i
  rw [hstage] at hdue
  rw [← hstage] at hprobing
  obtain ⟨m, hnm, hwaits, hfinished⟩ := hx.underWay_waiting left n ⟨hprobing, hdues⟩
  rw [hdue due hnext] at hdeadline hfinished
  refine ⟨m, hnm, t₀, k + 1, ?_, hfinished.trans rounds_succ.symm⟩
  rw [hwaits, Nat.succ_mul, ← Nat.add_assoc, ← hdeadline]

/-- An instance that listens is in some round at last. -/
theorem listening_round : x.LeadsTo (fun d => (d.stages i).listening = true)
    (fun d => ∃ t₀ k, Waiting i ⟨t₀ + k * selfProbeInterval⟩ (rounds t₀ k) d) := by
  intro n hn
  cases hstage : (x.state n).stages i with
  | running listening prober =>
    rw [hstage] at hn
    obtain rfl : listening = true := hn
    cases prober with
    | spawned =>
      obtain ⟨m, hnm, t₀, hwaits⟩ := hx.spawned_waiting n hstage
      refine ⟨m, hnm, t₀, 1, ?_⟩
      rw [rounds_succ, Nat.one_mul, Nat.zero_mul, Nat.add_zero]
      exact hwaits
    | waiting ticker =>
      obtain ⟨t₀, k, hdues, hnext⟩ := (hx.punctual n).2 i
      have hdeadline : ticker.deadline = t₀ + k * selfProbeInterval :=
        hnext _ (by rw [hstage]; rfl)
      refine ⟨n, Nat.le_refl n, t₀, k, ?_, hdues⟩
      rw [hstage, ← hdeadline]
    | probing ticker due p =>
      obtain ⟨-, hdeadline, -⟩ := (hx.punctual n).1.works hstage
      exact hx.underWay_round hstage .probing hdeadline rfl
    | asking ticker due call reply k =>
      obtain ⟨-, hdeadline, -⟩ := (hx.punctual n).1.works hstage
      cases reply with
      | none => exact hx.underWay_round hstage .asking hdeadline rfl
      | some reply => exact hx.underWay_round hstage .told hdeadline rfl
  | _ =>
    rw [hstage] at hn
    cases hn

end Attended

/-- **The self-probe goes on.** An instance that listens probes for good: however
late its probes are, whatever S3 replies, for every `k` there comes a time at which
`k` of them and more are over, and they were due at `t₀`, `t₀ + 60 s`,
`t₀ + 120 s` and so on. -/
theorem selfProbe_forever {x : Execution (step plan)} (hx : Attended plan x)
    (hlistens : ((x.state n).stages i).listening = true) :
    ∃ t₀, ∀ k, ∃ m k', n ≤ m ∧ k ≤ k' ∧ (x.state m).finished i = rounds t₀ k' := by
  obtain ⟨m₀, hn, t₀, k₀, hround⟩ := hx.listening_round n hlistens
  refine ⟨t₀, fun k => ?_⟩
  obtain ⟨m, hm, -, hfinished⟩ := hx.round_round t₀ k₀ k m₀ hround
  exact ⟨m, k₀ + k, Nat.le_trans hn hm, Nat.le_add_left k k₀, hfinished⟩

omit [RustChar] in
/-- Instance 0 has just come up. -/
theorem exampleStart_forever : ∃ x : Execution (@Deployment.step asciiChars (examplePlan [])),
    @Attended asciiChars (examplePlan []) x ∧ ((x.state 7).stages 0).listening = true ∧
    ∃ t₀, ∀ k, ∃ m k', 7 ≤ m ∧ k ≤ k' ∧ (x.state m).finished 0 = rounds t₀ k' := by
  let _ : RustChar := asciiChars
  obtain ⟨d, hrun, hlistens⟩ : ∃ d, Run (Deployment.step (examplePlan [])) (fun _ _ => True)
      (init fun _ => none) exampleStart d ∧ (d.stages 0).listening = true :=
    exists_run_of_exec (fun _ _ _ => trivial)
      (show (exec _ (fun _ _ => true) _ _).any _ = true by decide)
  obtain ⟨x, ⟨hx, -⟩, hstate, -⟩ := exists_tended hrun (P := fun _ => True) ⟨.answer, trivial⟩
  have hseven : ((x.state 7).stages 0).listening = true := by
    rw [show x.state 7 = d from hstate]
    exact hlistens
  exact ⟨x, hx, hseven, selfProbe_forever hx hseven⟩

end Deployment

end NxCacheServer.System
