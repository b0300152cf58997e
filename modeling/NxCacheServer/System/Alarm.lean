import NxCacheServer.Server.ProbeRate
import NxCacheServer.System.Deployment
import NxCacheServer.System.Steps

/-!
# The self-probe and the alarm

A self-probe is due once a minute, whenever it then runs. What it reports is
therefore bounded by the clock: the errors it adds to any window belong to
probes that were due in that window, or before it by no more than they were late
(`selfProbe_alarm`). The comment in the source counts five in five minutes. It is
six if the first is late and the last is not, and stays under the threshold of
20 as long as no error comes a quarter of an hour late.

All of this is about one instance (`d.entries i`). The lines of a deployment are
those of all its instances, and four of them may well report 20 errors in five
minutes. `OnSchedule` is the invariant, for one instance at a time.

Errors are counted by the probe they belong to and not by the time of the line: each
probe reports one at most (`OnSchedule.once`), and the probes are a minute apart by
when they were due (`OnSchedule.spaced`). A window of the clock then becomes a window
of due times, which is longer by what the lines were late.
-/

namespace NxCacheServer.System

open NxCacheServer.Bin NxCacheServer.Domain NxCacheServer.Infra NxCacheServer.Server
  NxCacheServer.Lib

/-- ERROR "S3 operation failed" of a self-probe. -/
def ProbeEntry.isError (entry : ProbeEntry) : Bool :=
  match entry.event with
  | .did ⟨.log (.s3Error _ _ _), _⟩ => true
  | _ => false

/-- The errors reported by the probe that was due at `due`. -/
def errorsOf (entries : List ProbeEntry) (due : Instant) : Nat :=
  entries.countP fun entry => entry.due = due && entry.isError

/-- A probe says that S3 is out of reach if and only if it has reported an
error. -/
def Verdict (line : ProbeLine) (errors : Nat) : Prop := errors = if line.reachable then 0 else 1

namespace Stage

/-- The self-probe has had no tick yet. -/
def Unticked : Stage → Prop
  | .off => True
  | .booting _ => True
  | .putting _ _ _ _ _ => True
  | .running _ .spawned => True
  | _ => False

/-- The ticker of an instance that has had its first tick. -/
def ticker : Stage → Option Ticker
  | .running _ (.waiting ticker) => some ticker
  | .running _ (.probing ticker _ _) => some ticker
  | .running _ (.asking ticker _ _ _ _) => some ticker
  | _ => none

/-- When the probe that is under way was due. -/
def due : Stage → Option Instant
  | .running _ (.probing _ due _) => some due
  | .running _ (.asking _ due _ _ _) => some due
  | _ => none

/-- A probe under way was due in the past, the next one is due a period later, and
what it has left to do is in keeping with the errors it has reported. -/
def Works (clock : Instant) (errors : Instant → Nat) : Stage → Prop
  | .running _ (.probing ticker due p) =>
    due ≤ clock ∧ ticker.deadline = due + selfProbeInterval ∧ p.wp watching Verdict (errors due)
  | .running _ (.asking ticker due call _ k) =>
    due ≤ clock ∧ ticker.deadline = due + selfProbeInterval ∧
      (Prog.act (.s3 call) k).wp watching Verdict (errors due)
  | _ => True

theorem ticker_of_unticked {stage : Stage} (h : stage.Unticked) : stage.ticker = none := by
  cases stage with
  | running listening prober =>
    cases prober with
    | spawned => rfl
    | _ => exact absurd h not_false
  | _ => rfl

theorem Works.later {clock clock' : Instant} {errors : Instant → Nat} {stage : Stage}
    (h : stage.Works clock errors) (hle : clock ≤ clock') : stage.Works clock' errors := by
  unfold Works at h ⊢
  split at h
  next => exact ⟨Nat.le_trans h.1 hle, h.2⟩
  next => exact ⟨Nat.le_trans h.1 hle, h.2⟩
  next => trivial

end Stage

/-- The probe of an entry is the one that was due at `due`, and not over, or came
before it. -/
def ProbeEntry.UpTo (entry : ProbeEntry) (due : Instant) : Prop :=
  entry.due = due ∧ (∀ line, entry.event ≠ .finished line) ∨ entry.due + selfProbeInterval ≤ due

/-- What an instance in `stage` has done by way of self-probes. -/
structure OnSchedule (clock : Instant) (stage : Stage) (entries : List ProbeEntry) : Prop where
  past : ∀ {entry}, entry ∈ entries → entry.due ≤ entry.time
  unticked : stage.Unticked → entries = []
  before : ∀ {entry ticker}, entry ∈ entries → stage.ticker = some ticker →
    entry.due + selfProbeInterval ≤ ticker.deadline
  current : ∀ {entry due}, entry ∈ entries → stage.due = some due → entry.UpTo due
  spaced : ∀ {entry entry'}, entry ∈ entries → entry' ∈ entries → entry.due = entry'.due ∨
    entry.due + selfProbeInterval ≤ entry'.due ∨ entry'.due + selfProbeInterval ≤ entry.due
  once : ∀ due, errorsOf entries due ≤ 1
  works : stage.Works clock (errorsOf entries)
  told : ∀ {entry line}, entry ∈ entries → entry.event = .finished line →
    Verdict line (errorsOf entries entry.due)

/-- An entry adds to the errors of its own probe. -/
theorem errorsOf_cons {entry : ProbeEntry} {entries : List ProbeEntry} {due : Instant} :
    errorsOf (entry :: entries) due =
      errorsOf entries due + if entry.due = due ∧ entry.isError = true then 1 else 0 := by
  simp [errorsOf, List.countP_cons]

theorem errorsOf_cons_silent {entry : ProbeEntry} {entries : List ProbeEntry}
    (h : entry.isError = false) : errorsOf (entry :: entries) = errorsOf entries := by
  funext due
  simp [errorsOf_cons, h]

/-- A probe without an entry has reported none. -/
theorem errorsOf_eq_zero {entries : List ProbeEntry} {due : Instant}
    (h : ∀ entry ∈ entries, entry.due ≠ due) : errorsOf entries due = 0 := by
  rw [errorsOf, List.countP_eq_zero]
  intro entry hmem
  simp [h entry hmem]

namespace OnSchedule

variable {clock clock' : Instant} {stage stage' : Stage} {entries : List ProbeEntry} {i : InstId}
  {due : Instant} {event : ProbeEvent}

/-- Time may pass: a probe may only be later than it is due. -/
theorem later (h : OnSchedule clock stage entries) (hle : clock ≤ clock') :
    OnSchedule clock' stage entries :=
  { h with works := h.works.later hle }

/-- The stage changes, and the self-probe does not come any further. -/
theorem restage (h : OnSchedule clock stage entries) (hunticked : stage'.Unticked → stage.Unticked)
    (hticker : ∀ ticker, stage'.ticker = some ticker → stage.ticker = some ticker)
    (hdue : ∀ due, stage'.due = some due → stage.due = some due)
    (hworks : stage'.Works clock (errorsOf entries)) : OnSchedule clock stage' entries where
  past := h.past
  unticked hno := h.unticked (hunticked hno)
  before hmem ht := h.before hmem (hticker _ ht)
  current hmem hd := h.current hmem (hdue _ hd)
  spaced := h.spaced
  once := h.once
  works := hworks
  told := h.told

/-- The probe that was due at `due` does something. -/
theorem note (h : OnSchedule clock stage entries) (hpast : due ≤ clock)
    (hold : ∀ entry ∈ entries, entry.UpTo due) {ticker : Ticker}
    (hticker : stage'.ticker = some ticker) (hdeadline : ticker.deadline = due + selfProbeInterval)
    (hdue : stage'.due = none ∨ stage'.due = some due ∧ ∀ line, event ≠ .finished line)
    (honce : (ProbeEntry.mk clock i due event).isError = true → errorsOf entries due = 0)
    (hworks : stage'.Works clock (errorsOf (⟨clock, i, due, event⟩ :: entries)))
    (htold : ∀ line, event = .finished line → Verdict line (errorsOf entries due)) :
    OnSchedule clock stage' (⟨clock, i, due, event⟩ :: entries) where
  past := by
    intro entry hmem
    rcases List.mem_cons.mp hmem with rfl | hmem
    · exact hpast
    · exact h.past hmem
  unticked hno := by
    rw [Stage.ticker_of_unticked hno] at hticker
    cases hticker
  before := by
    intro entry ticker' hmem ht
    obtain rfl : ticker = ticker' := Option.some.inj (hticker.symm.trans ht)
    rw [hdeadline]
    rcases List.mem_cons.mp hmem with rfl | hmem
    · exact Nat.le_refl _
    · rcases hold entry hmem with ⟨heq, -⟩ | hle
      · rw [heq]
      · exact Nat.le_trans hle (Nat.le_add_right _ _)
  current := by
    intro entry due' hmem hd
    rcases hdue with hnone | ⟨hsame, hopen⟩
    · rw [hnone] at hd
      cases hd
    · obtain rfl : due = due' := Option.some.inj (hsame.symm.trans hd)
      rcases List.mem_cons.mp hmem with rfl | hmem
      · exact Or.inl ⟨rfl, hopen⟩
      · exact hold entry hmem
  spaced := by
    intro entry entry' hmem hmem'
    rcases List.mem_cons.mp hmem with rfl | hmem
    · rcases List.mem_cons.mp hmem' with rfl | hmem'
      · exact Or.inl rfl
      · exact (hold entry' hmem').imp (fun h => h.1.symm) Or.inr
    · rcases List.mem_cons.mp hmem' with rfl | hmem'
      · exact (hold entry hmem).imp And.left Or.inl
      · exact h.spaced hmem hmem'
  once := by
    intro due'
    rw [errorsOf_cons]
    split
    next herror =>
      obtain ⟨rfl, herror⟩ := herror
      rw [honce herror]
    next => exact h.once due'
  works := hworks
  told := by
    intro entry line hmem hline
    rcases List.mem_cons.mp hmem with rfl | hmem
    · dsimp only at hline
      subst hline
      rw [errorsOf_cons_silent rfl]
      exact htold line rfl
    -- a probe that is over was another one
    · have hne : ¬ (due = entry.due ∧ (ProbeEntry.mk clock i due event).isError = true) := by
        intro hsame
        rcases hold entry hmem with ⟨-, hopen⟩ | hle
        · exact hopen line hline
        · rw [← hsame.1] at hle
          exact Nat.not_lt.mpr hle (Nat.lt_add_of_pos_right selfProbeInterval_pos)
      rw [errorsOf_cons, if_neg hne]
      exact h.told hmem hline

end OnSchedule

namespace Deployment

variable {plan : Plan} {d d' : Deployment} {l : DeployLabel} {i : InstId} {stage : Stage}
  {due : Instant} {event : ProbeEvent}

/-- What the self-probe of `i` has done, newest first. -/
def entries (d : Deployment) (i : InstId) : List ProbeEntry :=
  d.probes.filter fun entry => entry.inst = i

@[simp] theorem entries_noteProbe {i' : InstId} : (d.noteProbe i due event).entries i' =
    if i' = i then ⟨d.world.clock, i, due, event⟩ :: d.entries i else d.entries i' := by
  by_cases h : i' = i
  · simp [entries, noteProbe, h]
  · simp [entries, noteProbe, h, Ne.symm h]

/-- Every instance is on schedule. -/
def Punctual (d : Deployment) : Prop :=
  ∀ i, OnSchedule d.world.clock (d.stages i) (d.entries i)

theorem punctual_init {objects : Hash → Option Bytes} : Punctual (init objects) := by
  intro i
  refine ⟨?_, fun _ => rfl, ?_, ?_, ?_, fun _ => Nat.zero_le _, trivial, ?_⟩
  all_goals
    intro entry
    intros
    contradiction

/-- One instance goes on, and its schedule with it. -/
theorem Punctual.setStage (hd : Punctual d)
    (hi : OnSchedule d.world.clock stage (d.entries i)) : Punctual (d.setStage i stage) := by
  intro i'
  rw [stages_setStage]
  split
  next heq =>
    rw [heq]
    exact hi
  next => exact hd i'

/-- Its self-probe does, and what it does is on record. -/
theorem Punctual.noteProbe (hd : Punctual d)
    (hi : OnSchedule d.world.clock stage (⟨d.world.clock, i, due, event⟩ :: d.entries i)) :
    Punctual ((d.setStage i stage).noteProbe i due event) := by
  intro i'
  rw [stages_noteProbe, stages_setStage, entries_noteProbe]
  by_cases heq : i' = i
  · rw [if_pos heq, if_pos heq]
    exact hi
  · rw [if_neg heq, if_neg heq]
    exact hd i'

/-- A tick is for the next probe. -/
theorem Punctual.gets (hd : Punctual d) {listening : Bool} {prober : Prober} {ticker : Ticker}
    (hstage : d.stages i = .running listening prober)
    (hgets : Gets d.world.clock prober ticker due) :
    due ≤ d.world.clock ∧ ticker.deadline = due + selfProbeInterval ∧
      ∀ entry ∈ d.entries i, entry.due + selfProbeInterval ≤ due := by
  have hi := hd i
  rw [hstage] at hi
  cases hgets with
  | first ht =>
    obtain ⟨-, hle, hdeadline⟩ := Ticker.tick_eq_some.mp ht
    refine ⟨hle, hdeadline, ?_⟩
    intro entry hmem
    rw [hi.unticked trivial] at hmem
    cases hmem
  | next ht =>
    obtain ⟨hdue, hle, hdeadline⟩ := Ticker.tick_eq_some.mp ht
    refine ⟨hle, hdeadline, ?_⟩
    intro entry hmem
    rw [hdue]
    exact hi.before hmem rfl

/-- An answered action of the self-probe, and what it leaves. -/
theorem Punctual.act (hd : Punctual d) {listening : Bool} {ticker : Ticker} {e : Act}
    {resp : e.Resp} {k : e.Resp → Async ProbeLine} (hdue : (d.stages i).due = some due)
    (hpast : due ≤ d.world.clock) (hdeadline : ticker.deadline = due + selfProbeInterval)
    (hleft : (Prog.act e k).wp watching Verdict (errorsOf (d.entries i) due)) :
    OnSchedule d.world.clock (.running listening (.probing ticker due (k resp)))
      (⟨d.world.clock, i, due, .did ⟨e, resp⟩⟩ :: d.entries i) := by
  obtain ⟨hallow, hk⟩ := hleft
  have hi := hd i
  refine hi.note hpast (fun entry hmem => hi.current hmem hdue) rfl hdeadline
    (Or.inr ⟨rfl, fun line hno => by cases hno⟩) ?_ ⟨hpast, hdeadline, ?_⟩ ?_
  · intro herror
    cases e with
    | log line => exact hallow.1
    | _ => cases herror
  · have hrest := hk resp trivial
    cases e with
    | log line =>
      obtain ⟨-, err, rfl⟩ := hallow
      rw [errorsOf_cons, if_pos ⟨rfl, rfl⟩]
      exact hrest
    | s3 call | now =>
      rw [errorsOf_cons_silent rfl]
      exact hrest
    | _ => exact absurd hallow not_false
  · intro line hno
    cases hno

/-- What the stage of an instance says of the probe under way. -/
theorem Punctual.works (hd : Punctual d) (hstage : d.stages i = stage) :
    stage.Works d.world.clock (errorsOf (d.entries i)) := hstage ▸ (hd i).works

/-- The entries of the probes before the one that is under way were due before. -/
theorem Punctual.upTo (hd : Punctual d) (hstage : d.stages i = stage) (hdue : stage.due = some due) :
    ∀ entry ∈ d.entries i, entry.UpTo due :=
  fun _ hmem => (hd i).current hmem (hstage ▸ hdue)

/-- The self-probe asks S3 for nothing but its object. -/
theorem Punctual.asks (hd : Punctual d) {listening : Bool} {ticker : Ticker} {call : S3Call}
    {reply : Option call.Reply} {k : call.Reply → Async ProbeLine}
    (hstage : d.stages i = .running listening (.asking ticker due call reply k)) :
    call = .headObject probeKey :=
  (hd.works hstage).2.2.1

/-- So S3 serves it and nothing changes. -/
theorem Punctual.looks (hd : Punctual d) {listening : Bool} {ticker : Ticker} {call : S3Call}
    {reply : Option call.Reply} {k : call.Reply → Async ProbeLine}
    (hstage : d.stages i = .running listening (.asking ticker due call reply k))
    (eTagOf : Bytes → ETag) : d.world.bucket.apply eTagOf call = d.world.bucket := by
  rw [hd.asks hstage]
  rfl

variable [RustChar]

theorem Punctual.step (hd : Punctual d) (h : d.step plan l = some d') : Punctual d' := by
  -- a stage without a self-probe that is under way
  have hquiet : ∀ {i : InstId} {stage : Stage}, (stage.Unticked → (d.stages i).Unticked) →
      stage.due = none →
      (∀ ticker, stage.ticker = some ticker → (d.stages i).ticker = some ticker) →
      stage.Works d.world.clock (errorsOf (d.entries i)) → Punctual (d.setStage i stage) := by
    intro i stage hunticked hdue hticker hworks
    refine hd.setStage ((hd i).restage hunticked hticker ?_ hworks)
    intro due hno
    rw [hdue] at hno
    cases hno
  cases step_cases h with
  | request hadmits hstep => exact fun i => (hd i).later (World.clock_of_step hstep)
  | late _ => exact hd
  | start hstage | boots hstage _ | puts hstage | putServed hstage | putFailed hstage
  | putDelivered hstage | serves hstage =>
    exact hquiet (fun _ => by rw [hstage]; trivial) rfl (fun _ hno => by cases hno) trivial
  | exits _ | bindFails _ =>
    exact hquiet (fun hno => absurd hno not_false) rfl (fun _ hno => by cases hno) trivial
  | @binds i prober hstage =>
    have hi := hd i
    rw [hstage] at hi
    refine hd.setStage (hi.restage ?_ ?_ ?_ ?_)
    · cases prober <;> exact id
    · cases prober <;> exact fun _ => id
    · cases prober <;> exact fun _ => id
    · have hworks := hi.works
      cases prober <;> exact hworks
  | @ticks i listening prober ticker due hstage hgets =>
    obtain ⟨hpast, hdeadline, hbefore⟩ := hd.gets hstage hgets
    refine hd.noteProbe ((hd i).note hpast (fun entry hmem => Or.inr (hbefore entry hmem)) rfl
      hdeadline (Or.inr ⟨rfl, fun line hno => by cases hno⟩) (fun hno => by cases hno)
      ⟨hpast, hdeadline, ?_⟩ fun line hno => by cases hno)
    rw [errorsOf_cons_silent rfl, errorsOf_eq_zero]
    · exact selfProbeOnce_watching
    · intro entry hmem heq
      have hle := hbefore entry hmem
      rw [heq] at hle
      exact Nat.not_lt.mpr hle (Nat.lt_add_of_pos_right selfProbeInterval_pos)
  | @finishes i listening ticker due line hstage =>
    obtain ⟨hpast, hdeadline, hverdict⟩ := hd.works hstage
    refine hd.noteProbe ((hd i).note hpast (hd.upTo hstage rfl) rfl hdeadline (Or.inl rfl)
      (fun hno => by cases hno) trivial ?_)
    intro line' hline
    cases hline
    exact hverdict
  | @calls i listening ticker due call k hstage =>
    obtain ⟨hpast, hdeadline, hleft⟩ := hd.works hstage
    refine hd.noteProbe ((hd i).note hpast (hd.upTo hstage rfl) rfl hdeadline
      (Or.inr ⟨rfl, fun line hno => by cases hno⟩) (fun hno => by cases hno)
      ⟨hpast, hdeadline, ?_⟩ fun line hno => by cases hno)
    rw [errorsOf_cons_silent rfl]
    exact hleft
  | @acts i listening ticker due e resp k hlocal hstage =>
    obtain ⟨hpast, hdeadline, hleft⟩ := hd.works hstage
    exact hd.noteProbe (hd.act (by rw [hstage]; rfl) hpast hdeadline hleft)
  | @probeServed i listening ticker due fate call k hstage _
  | @probeFailed i listening ticker due fate call k hstage _ =>
    have hi := hd i
    rw [hstage] at hi
    exact hd.setStage (hi.restage id (fun _ => id) (fun _ => id) hi.works)
  | @probeDelivered i listening ticker due call reply k hstage =>
    obtain ⟨hpast, hdeadline, hleft⟩ := hd.works hstage
    exact hd.noteProbe (hd.act (by rw [hstage]; rfl) hpast hdeadline hleft)

omit [RustChar] in
/-- Five minutes and fourteen have fewer than 20 minutes in them. -/
theorem few_of_late {late : Nat} (h : late ≤ 840000000000) :
    (300000000000 + late + 60000000000 - 1) / 60000000000 < 20 := by
  omega

theorem punctual_of_run {ok : Deployment → DeployLabel → Prop} {objects : Hash → Option Bytes}
    {ls : List DeployLabel} (hrun : Run (step plan) ok (init objects) ls d) : Punctual d :=
  hrun.invariant (fun _ _ _ hd _ h => hd.step h) punctual_init

/-- **The alarm.** A self-probe reports one error if it says that S3 is out of
reach, and none otherwise. If none of those of an instance comes more than `late`
after its probe was due, there are at most `⌈(w + late) / 60 s⌉` of them in a window of
length `w`, and never 20 in five minutes unless one is more than 14 minutes late. -/
theorem selfProbe_alarm {ok : Deployment → DeployLabel → Prop} {objects : Hash → Option Bytes}
    {ls : List DeployLabel} (hrun : Run (step plan) ok (init objects) ls d) (i : InstId) :
    (∀ entry ∈ d.entries i, ∀ line, entry.event = .finished line →
      Verdict line (errorsOf (d.entries i) entry.due)) ∧
    ∀ late : Duration,
      (∀ entry ∈ d.entries i, entry.isError = true → entry.time ≤ entry.due + late) →
      (∀ (t : Instant) (w : Duration), ((d.entries i).filter fun entry =>
          entry.isError && t ≤ entry.time && entry.time < t + w).length ≤
        (w + late + selfProbeInterval - 1) / selfProbeInterval) ∧
      (late ≤ fromSecs 840 → ∀ t : Instant, ((d.entries i).filter fun entry =>
          entry.isError && t ≤ entry.time && entry.time < t + fromSecs 300).length < 20) := by
  have hi := punctual_of_run hrun i
  refine ⟨fun entry hmem line hline => hi.told hmem hline, ?_⟩
  intro late hlate
  have hwindow : ∀ (t : Instant) (w : Duration), ((d.entries i).filter fun entry =>
      entry.isError && t ≤ entry.time && entry.time < t + w).length ≤
        (w + late + selfProbeInterval - 1) / selfProbeInterval := by
    intro t w
    have hnodup : (((d.entries i).filter fun entry =>
        entry.isError && t ≤ entry.time && entry.time < t + w).map ProbeEntry.due).Nodup := by
      rw [List.nodup_iff_count_le_one]
      intro due
      rw [List.count, List.countP_map, List.countP_filter]
      refine Nat.le_trans (List.countP_mono_left ?_) (hi.once due)
      intro entry _ hentry
      simp only [Function.comp, Bool.and_eq_true, beq_iff_eq, decide_eq_true_eq] at hentry ⊢
      exact ⟨hentry.1, hentry.2.1.1⟩
    rw [← List.length_map fun entry : ProbeEntry => entry.due + late]
    refine length_le_of_spaced (t := t) selfProbeInterval_pos (List.pairwise_map.mpr ?_) ?_
    · refine (List.pairwise_map.mp hnodup).imp_of_mem ?_
      intro entry entry' hmem hmem' hne
      rcases hi.spaced (List.mem_of_mem_filter hmem) (List.mem_of_mem_filter hmem') with
        heq | hle | hle
      · exact absurd heq hne
      · left
        calc entry.due + late + selfProbeInterval
            = entry.due + selfProbeInterval + late := Nat.add_right_comm ..
          _ ≤ entry'.due + late := Nat.add_le_add_right hle late
      · right
        calc entry'.due + late + selfProbeInterval
            = entry'.due + selfProbeInterval + late := Nat.add_right_comm ..
          _ ≤ entry.due + late := Nat.add_le_add_right hle late
    · intro x hx
      obtain ⟨entry, hmem, rfl⟩ := List.mem_map.mp hx
      simp only [List.mem_filter, Bool.and_eq_true, decide_eq_true_eq] at hmem
      obtain ⟨hmem, ⟨herror, hfrom⟩, hto⟩ := hmem
      refine ⟨Nat.le_trans hfrom (hlate entry hmem herror), ?_⟩
      calc entry.due + late ≤ entry.time + late := Nat.add_le_add_right (hi.past hmem) late
        _ < t + w + late := Nat.add_lt_add_right hto late
        _ = t + (w + late) := Nat.add_assoc t w late
  refine ⟨hwindow, ?_⟩
  intro hle t
  exact Nat.lt_of_le_of_lt (hwindow t (fromSecs 300)) (few_of_late hle)

/-- A self-probe of instance 0 that fails after `wait`. -/
def failedProbe (wait : Duration) : List DeployLabel :=
  [.tick 0, .probe 0, .probe 0, .request (.tick wait),
    .serveProbe 0 (.fail ⟨none, none, "timeout"⟩),
    .deliverProbe 0, .probe 0, .probe 0, .probe 0]

/-- Six probes: the first fails after 30 s, the others at once. -/
def sixErrors : List DeployLabel :=
  exampleStart ++ failedProbe (fromSecs 30) ++ [.request (.tick (fromSecs 30))] ++
    (List.replicate 5 (failedProbe 0 ++ [.request (.tick (fromSecs 60))])).flatten

omit [RustChar] in
/-- Six errors in five minutes, which is what the bound allows for. -/
theorem sixErrors_alarm : ∃ d, Run (@Deployment.step asciiChars (examplePlan []))
    (fun _ _ => True) (init fun _ => none) sixErrors d ∧
      ((d.entries 0).filter fun entry => entry.isError && fromSecs 30 ≤ entry.time &&
        entry.time < fromSecs 30 + fromSecs 300).length = 6 ∧
      ((d.entries 0).filter fun entry => entry.isError && fromSecs 30 ≤ entry.time &&
        entry.time < fromSecs 30 + fromSecs 300).length ≤ 6 := by
  let _ : RustChar := asciiChars
  obtain ⟨d, hrun, hsix, hlate⟩ : ∃ d, Run (Deployment.step (examplePlan [])) (fun _ _ => True)
      (init fun _ => none) sixErrors d ∧
      ((d.entries 0).filter fun entry => entry.isError && fromSecs 30 ≤ entry.time &&
        entry.time < fromSecs 30 + fromSecs 300).length = 6 ∧
      ∀ entry ∈ d.entries 0, entry.isError = true → entry.time ≤ entry.due + fromSecs 30 :=
    exists_run_of_exec (fun _ _ _ => trivial)
      (show (exec _ (fun _ _ => true) _ _).any _ = true by decide)
  obtain ⟨hwindow, -⟩ := (selfProbe_alarm hrun 0).2 (fromSecs 30) hlate
  exact ⟨d, hrun, hsix, hwindow (fromSecs 30) (fromSecs 300)⟩

end Deployment

end NxCacheServer.System
