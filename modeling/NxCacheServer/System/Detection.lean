import NxCacheServer.System.Vigil

/-!
# What the self-probe detects

The self-probe is there to tell whether S3 can be reached. It does: if from some
point on none of its requests gets through, then from some probe on all of them
report that S3 is out of reach, each with the one ERROR line that the alarm counts;
if all of them get through, all report that it is reachable, without any; and the
reports do not end (`selfProbe_detects`).

A probe that is under way when things change may report either. `Detects` is the
invariant for those that are due later.

`Stage.Heading` says of a probe under way how it is going to end, as a `wp` of what is
left of it; the promise in it is about the one request it makes. Nothing is assumed
of how long that takes.
-/

namespace NxCacheServer.System

open NxCacheServer.Bin NxCacheServer.Domain NxCacheServer.Infra NxCacheServer.Server
  NxCacheServer.Lib

/-- A `HeadObject` fails for its caller if and only if S3 does not serve it. -/
theorem headFailed_reply {fate : Fate} {bucket : Bucket} {eTagOf : Bytes → ETag} {key : Hash} :
    headFailed (fate.reply (.headObject key) (bucket.reply eTagOf (.headObject key))) =
      !fate.served := by
  have hreply : headFailed (bucket.reply eTagOf (.headObject key)) = false := by
    rcases bucket.reply_headObject eTagOf key with ⟨-, heq⟩ | ⟨-, heq⟩ <;> rw [heq] <;> rfl
  cases fate with
  | fail err => rfl
  | answer | bare | cut n => exact hreply

/-- A probe that is due at `t₀` or later is going to report `up`. -/
def Stage.Heading (up : Bool) (t₀ : Instant) : Stage → Prop
  | .running _ (.probing _ due p) =>
    t₀ ≤ due → p.wp (answeredIf up) (fun line _ => line.reachable = up) ()
  | .running _ (.asking _ due call none k) =>
    t₀ ≤ due → (Prog.act (.s3 call) k).wp (answeredIf up) (fun line _ => line.reachable = up) ()
  | .running _ (.asking _ due _ (some reply) k) =>
    t₀ ≤ due → (k reply).wp (answeredIf up) (fun line _ => line.reachable = up) ()
  | _ => True

namespace Deployment

variable {plan : Plan} {d d' : Deployment} {l : DeployLabel} {i : InstId} {n : Nat} {up : Bool}
  {t₀ : Instant}

/-- The probes of `i` that were due at `t₀` or later have reported `up`, and go on to
do so. -/
structure Detects (i : InstId) (up : Bool) (t₀ : Instant) (d : Deployment) : Prop where
  heading : (d.stages i).Heading up t₀
  told : ∀ {entry line}, entry ∈ d.entries i → t₀ ≤ entry.due → entry.event = .finished line →
    line.reachable = up

namespace Detects

/-- The self-probe does something and has not come to its end. -/
theorem note (hd : Detects i up t₀ d) {due : Instant} {event : ProbeEvent} {stage : Stage}
    (hopen : ∀ line, event ≠ .finished line) (hstage : stage.Heading up t₀) :
    Detects i up t₀ ((d.setStage i stage).noteProbe i due event) where
  heading := by
    rw [stages_noteProbe, stages_self]
    exact hstage
  told := by
    intro entry line hmem hdue hline
    rw [entries_noteProbe, if_pos rfl] at hmem
    rcases List.mem_cons.mp hmem with rfl | hmem
    · exact absurd hline (hopen line)
    · exact hd.told hmem hdue hline

/-- The stage changes, and nothing is reported. -/
theorem restage (hd : Detects i up t₀ d) {stage : Stage} (hstage : d'.stages i = stage)
    (hsame : d'.entries i = d.entries i) (hheading : stage.Heading up t₀) :
    Detects i up t₀ d' where
  heading := by
    rw [hstage]
    exact hheading
  told := by
    rw [hsame]
    exact hd.told

end Detects

/-- All probes that are due late enough are to come. -/
theorem exists_detects (hd : Punctual d) (hlistens : (d.stages i).listening = true) :
    ∃ t₀, Detects i up t₀ d := by
  have hi := hd i
  cases hstage : d.stages i with
  | running listening prober =>
    rw [hstage] at hi
    -- no probe that is over, or under way, was due when the next one is, or later
    have hover : ∀ {ticker : Ticker},
        (Stage.running listening prober).ticker = some ticker → ∀ {entry line},
        entry ∈ d.entries i → ticker.deadline ≤ entry.due → entry.event = .finished line →
        line.reachable = up := by
      intro ticker hticker entry line hmem hdue _
      exact absurd (Nat.le_trans (hi.before hmem hticker) hdue)
        (Nat.not_le.mpr (Nat.lt_add_of_pos_right selfProbeInterval_pos))
    have hpast : ∀ {ticker : Ticker} {due : Instant}, ticker.deadline = due + selfProbeInterval →
        ¬ ticker.deadline ≤ due := by
      intro ticker due hdeadline
      rw [hdeadline]
      exact Nat.not_le.mpr (Nat.lt_add_of_pos_right selfProbeInterval_pos)
    cases prober with
    | spawned =>
      refine ⟨0, by rw [hstage]; trivial, ?_⟩
      intro entry line hmem
      rw [hi.unticked trivial] at hmem
      cases hmem
    | waiting ticker => exact ⟨ticker.deadline, by rw [hstage]; trivial, hover rfl⟩
    | probing ticker due p =>
      refine ⟨ticker.deadline, ?_, hover rfl⟩
      rw [hstage]
      exact fun hdue => absurd hdue (hpast hi.works.2.1)
    | asking ticker due call reply k =>
      refine ⟨ticker.deadline, ?_, hover rfl⟩
      rw [hstage]
      cases reply with
      | none => exact fun hdue => absurd hdue (hpast hi.works.2.1)
      | some reply => exact fun hdue => absurd hdue (hpast hi.works.2.1)
  | _ =>
    rw [hstage] at hlistens
    cases hlistens

variable [RustChar]

/-- A probe that is due from then on is looked at by an S3 that answers all alike,
and reports what it was told. -/
theorem Detects.step (hd : Detects i up t₀ d) (hpunctual : Punctual d)
    (h : d.step plan l = some d')
    (hfate : ∀ fate, l = .serveProbe i fate → fate.served = up) : Detects i up t₀ d' := by
  by_cases hl : l.inst = some i
  · have hheading : ∀ {stage : Stage}, d.stages i = stage → stage.Heading up t₀ :=
      fun hstage => hstage ▸ hd.heading
    cases step_cases h with
    | request _ _ | late _ => cases hl
    | start _ | serves _ | exits _ | boots _ _ | puts _ | putServed _ | putFailed _
    | putDelivered _ | bindFails _ =>
      obtain rfl := Option.some.inj hl
      refine hd.restage stages_self rfl ?_
      trivial
    | @binds i prober hstage =>
      obtain rfl := Option.some.inj hl
      refine hd.restage stages_self rfl ?_
      have hbefore := hheading hstage
      cases prober with
      | asking ticker due call reply k => cases reply <;> exact hbefore
      | _ => exact hbefore
    | ticks hstage _ =>
      obtain rfl := Option.some.inj hl
      exact hd.note (fun line hno => by cases hno) fun _ => selfProbeOnce_answeredIf up
    | @finishes i listening ticker due line hstage =>
      obtain rfl := Option.some.inj hl
      have hreports : t₀ ≤ due → line.reachable = up := hheading hstage
      refine ⟨by rw [stages_noteProbe, stages_self]; trivial, ?_⟩
      intro entry line' hmem hdue hline
      rw [entries_noteProbe, if_pos rfl] at hmem
      rcases List.mem_cons.mp hmem with rfl | hmem
      · cases hline
        exact hreports hdue
      · exact hd.told hmem hdue hline
    | calls hstage =>
      obtain rfl := Option.some.inj hl
      refine hd.note (fun line hno => by cases hno) ?_
      exact (hheading hstage :)
    | @acts i listening ticker due e resp k hlocal hstage =>
      obtain rfl := Option.some.inj hl
      refine hd.note (fun line hno => by cases hno) fun hdue => (hheading hstage hdue).2 resp ?_
      cases e with
      | s3 call => exact absurd rfl (hlocal call)
      | _ => trivial
    | @probeServed i listening ticker due fate call k hstage _
    | @probeFailed i listening ticker due fate call k hstage _ =>
      obtain rfl := Option.some.inj hl
      refine hd.restage stages_self rfl ?_
      intro hdue
      refine (hheading hstage hdue).2 _ ?_
      obtain rfl := hpunctual.asks hstage
      exact headFailed_reply.trans (congrArg (! ·) (hfate fate rfl))
    | probeDelivered hstage =>
      obtain rfl := Option.some.inj hl
      refine hd.note (fun line hno => by cases hno) ?_
      exact (hheading hstage :)
  · exact hd.restage (stages_of_other h hl) (entries_of_other h hl) hd.heading

/-- **Detection.** If from some point on S3 serves the requests of the self-probe of
an instance that listens, or fails all of them, then the self-probe says so: all
probes from some time `t₀` on report it, each with an ERROR line if S3 is out of
reach and without one if it is not, and there are ever more of them. -/
theorem selfProbe_detects {x : Execution (step plan)} (hx : Attended plan x)
    (hlistens : ((x.state n).stages i).listening = true)
    (hup : ∀ m fate, n ≤ m → x.label m = .serveProbe i fate → fate.served = up) :
    ∃ t₀,
      (∀ m, n ≤ m → ∀ entry ∈ (x.state m).entries i, t₀ ≤ entry.due →
        ∀ line, entry.event = .finished line → line.reachable = up ∧
          errorsOf ((x.state m).entries i) entry.due = if up then 0 else 1) ∧
      ∀ t, ∃ m, n ≤ m ∧ ∃ entry ∈ (x.state m).entries i, t ≤ entry.due ∧
        ∃ line, entry.event = .finished line := by
  obtain ⟨t₀, hdetects⟩ : ∃ t₀, Detects i up t₀ (x.state n) :=
    exists_detects (hx.punctual n).1 hlistens
  have hdetects : ∀ m, n ≤ m → Detects i up t₀ (x.state m) := by
    intro m hnm
    induction m, hnm using Nat.le_induction with
    | base => exact hdetects
    | succ m hnm ih =>
      exact ih.step (hx.punctual m).1 (x.next m) fun fate hl => hup m fate hnm hl
  refine ⟨t₀, ?_, ?_⟩
  · intro m hnm entry hmem hdue line hline
    have hreports := (hdetects m hnm).told hmem hdue hline
    have hverdict := ((hx.punctual m).1 i).told hmem hline
    rw [Verdict, hreports] at hverdict
    exact ⟨hreports, hverdict⟩
  · intro t
    obtain ⟨t₁, hforever⟩ := selfProbe_forever hx hlistens
    obtain ⟨m, k, hnm, hk, hfinished⟩ := hforever (t + 1)
    have hmem : t₁ + t * selfProbeInterval ∈ (x.state m).finished i := by
      rw [hfinished]
      exact List.mem_map.mpr ⟨t, List.mem_range.mpr hk, rfl⟩
    obtain ⟨entry, hentry, hdue, hline⟩ := mem_finished.mp hmem
    refine ⟨m, hnm, entry, hentry, ?_, hline⟩
    calc t ≤ t * selfProbeInterval := Nat.le_mul_of_pos_right t selfProbeInterval_pos
      _ ≤ t₁ + t * selfProbeInterval := Nat.le_add_left _ _
      _ = entry.due := hdue.symm

omit [RustChar] in
/-- Instance 0 has just come up when S3 goes away. -/
theorem outage_detected : ∃ x : Execution (@Deployment.step asciiChars (examplePlan [])),
    @Attended asciiChars (examplePlan []) x ∧ ((x.state 7).stages 0).listening = true ∧
    (∀ m fate, 7 ≤ m → x.label m = .serveProbe 0 fate → fate.served = false) ∧
    ∃ t₀,
      (∀ m, 7 ≤ m → ∀ entry ∈ (x.state m).entries 0, t₀ ≤ entry.due →
        ∀ line, entry.event = .finished line → line.reachable = false ∧
          errorsOf ((x.state m).entries 0) entry.due = if false then 0 else 1) ∧
      ∀ t, ∃ m, 7 ≤ m ∧ ∃ entry ∈ (x.state m).entries 0, t ≤ entry.due ∧
        ∃ line, entry.event = .finished line := by
  let _ : RustChar := asciiChars
  obtain ⟨d, hrun, hlistens⟩ : ∃ d, Run (Deployment.step (examplePlan [])) (fun _ _ => True)
      (init fun _ => none) exampleStart d ∧ (d.stages 0).listening = true :=
    exists_run_of_exec (fun _ _ _ => trivial)
      (show (exec _ (fun _ _ => true) _ _).any _ = true by decide)
  obtain ⟨x, ⟨hx, -⟩, hstate, hdealt⟩ :=
    exists_tended hrun (P := fun fate => fate.served = false)
      ⟨.fail ⟨none, none, "TimeoutError"⟩, rfl⟩
  have hseven : ((x.state 7).stages 0).listening = true := by
    rw [show x.state 7 = d from hstate]
    exact hlistens
  have hdown : ∀ m fate, 7 ≤ m → x.label m = .serveProbe 0 fate → fate.served = false := by
    intro m fate hm hl
    have hfate := hdealt m hm
    rw [hl] at hfate
    exact hfate
  exact ⟨x, hx, hseven, hdown, selfProbe_detects hx hseven hdown⟩

end Deployment

end NxCacheServer.System
