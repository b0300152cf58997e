import NxCacheServer.Server.OneSlot
import NxCacheServer.Server.SingleFlight

/-!
# Waiting behind failing probes

An `Ok` releases everybody who waits on the slot. An `Err` is its caller's own:
the next waiter runs its own closure, and whoever is behind it waits for that
one too. So the callers of a failing S3 are not released together but one by
one, and the last of them waits for every `Err` before it.

`no_convoy_of_oneFailure` says when a caller is spared this: it returns after at most
two probes on its slot, and waits for two timeouts at most, if no more than one probe
of another caller fails while it is inside. In `fourthCaller_waits` three fail, and
it is not.

A probe fails for those behind it when it ends in an `Err`, and also when its caller
is dropped in the middle of it (`dropped`). Both cost them one timeout each
(`clock_of_steady`); only the first is a probe that has ended.

`Tally` is the account of one caller: as long as it waits, the probes that have ended
since it came are the failures of others, one for one. The time has an account of its
own (`Paced`), since a probe that is lost takes as long as one that fails. Both are
kept by each step (`Tally.step`, `Paced.step`) and then by every run.
-/

namespace NxCacheServer.Server.CacheState

open NxCacheServer.Domain NxCacheServer.Lib

/-- How many probes have ended on a slot so far. -/
def completions (st : CacheState) (s : SlotId) : Nat := (st.ended s).length

/-- How many of them were not the probe of `c` and ended in an `Err`. -/
def failures (st : CacheState) (c : CallerId) (s : SlotId) : Nat :=
  (st.ended s).countP fun done => done.caller ≠ c ∧ done.value = none

/-- `c` is inside `present` and this step does not drop it. -/
def Stays (c : CallerId) (st : CacheState) (l : CacheLabel) : Prop :=
  st.cache.caller c ≠ none ∧ l ≠ .cancel c

/-- Time passes on a slot only while none of its callers can be polled: they all
wait for the probe in flight. -/
def Prompt (s : SlotId) (st : CacheState) : CacheLabel → Prop
  | .tick _ => ∀ c phase, st.cache.caller c = some phase → phase.slot = s →
      st.cache.poll c st.clock = none
  | _ => True

/-- `c` is on `s`, where every probe ends within `timeout`. -/
def Steady (timeout : Duration) (c : CallerId) (s : SlotId) (st : CacheState)
    (l : CacheLabel) : Prop :=
  Stays c st l ∧ Timely timeout st l ∧ Prompt s st l

/-- The step drops a caller whose probe on `s` is in flight. -/
def drops (s : SlotId) (st : CacheState) : CacheLabel → Bool
  | .cancel c => match st.cache.caller c with
    | some (.probing s' _) => s' = s
    | _ => false
  | _ => false

/-- How many probes on `s` were lost with their callers. -/
def dropped (s : SlotId) (st : CacheState) (ls : List CacheLabel) : Nat :=
  (outputs CacheState.step (drops s) st ls).count true

section

variable {st st' : CacheState} {l : CacheLabel} {c c' : CallerId} {s s' : SlotId}

/-! ## Counting the probes -/

/-- What has become of `c` since `start`, when it got `s`. -/
inductive Tally (c : CallerId) (s : SlotId) (start st : CacheState) : Prop
  /-- It waits, and every probe that has ended was another's and failed. -/
  | waiting {phase : Phase} (hc : st.cache.caller c = some phase) (hslot : phase.slot = s)
      (hv : st.cache.value s = none)
      (hcount : st.completions s + start.failures c s = start.completions s + st.failures c s)
  /-- The cell is set: by one more probe, or it was so from the start. -/
  | released {phase : Phase} {v : Bool} (hc : st.cache.caller c = some phase)
      (hslot : phase.slot = s) (hv : st.cache.value s = some v)
      (hcount : st.completions s + start.failures c s =
          start.completions s + st.failures c s + 1 ∨
        st.completions s = start.completions s ∧ st.failures c s = start.failures c s)
  /-- It has returned, with the value or with its own error. -/
  | returned (hc : st.cache.caller c = none)
      (hcount : st.completions s + start.failures c s =
          start.completions s + st.failures c s + 1 ∨
        st.completions s = start.completions s ∧ st.failures c s = start.failures c s)

/-- A probe that ends on the slot is one completion more. -/
theorem completions_ends {value : Option Bool} (h : st'.ended s = ⟨s, c', value⟩ :: st.ended s) :
    st'.completions s = st.completions s + 1 := by
  rw [completions, h, List.length_cons, completions]

/-- It is one failure more if it was another caller's and ended in an `Err`. -/
theorem failures_ends {value : Option Bool} (h : st'.ended s = ⟨s, c', value⟩ :: st.ended s) :
    st'.failures c s = st.failures c s + if c' ≠ c ∧ value = none then 1 else 0 := by
  rw [failures, h, List.countP_cons, failures]
  simp

theorem counts_same (h : st'.ended s = st.ended s) :
    st'.completions s = st.completions s ∧ st'.failures c s = st.failures c s := by
  constructor
  · rw [completions, h, completions]
  · rw [failures, h, failures]

/-- A waiting caller is let go by a value in the cell or by the end of its own
probe, and by nothing else. -/
theorem inside_of_same {phase : Phase} (hstep : st.step l = some st')
    (hc : st.cache.caller c = some phase) (hv : st.cache.value phase.slot = none)
    (hcancel : l ≠ .cancel c)
    (hprobing : ∀ since, st.cache.caller c = some (.probing phase.slot since) →
      st'.cache.caller c = some (.probing phase.slot since)) : st'.cache.caller c ≠ none := by
  by_cases hl : l.Advances c
  · cases l with
    | poll c' => exact inside_of_poll hstep hc hv
    | finish c' value =>
      obtain rfl : c' = c := hl
      cases step_cases hstep with
      | finish hc' hfin =>
        rw [hc] at hc'
        cases hc'
        rw [hprobing _ hc]
        simp
    | tick | call | cancel | mark => exact absurd hl not_false
  · rw [caller_step hstep hc hl hcancel]
    simp

/-- Each probe that ends is another's `Err`, or lets the caller go. -/
theorem Tally.step {start : CacheState} (wf : st.cache.WF) (hs : s < st.cache.fresh)
    (h : Tally c s start st) (hok : Stays c st l) (hstep : st.step l = some st') :
    Tally c s start st' := by
  obtain ⟨hin, hcancel⟩ := hok
  cases h with
  | returned hc => exact absurd hc hin
  | @released phase v hc hslot hv hcount =>
    -- nobody probes on a cell that is set
    have hended : st'.ended s = st.ended s := by
      cases slot_move wf hs hstep with
      | same _ _ hended => exact hended
      | starts hnone =>
        rw [hv] at hnone
        cases hnone
      | ends hprobing | drops hprobing =>
        rw [(wf.probing_head hprobing).1] at hv
        cases hv
    obtain ⟨hdone, hfailed⟩ := counts_same (c := c) hended
    rw [← hdone, ← hfailed] at hcount
    rcases slot_step hstep hc hcancel with hc' | ⟨phase', hc', hslot'⟩
    · exact .returned hc' hcount
    · exact .released hc' (hslot'.trans hslot) (value_step wf hs hv hstep) hcount
  | @waiting phase hc hslot hv hcount =>
    subst hslot
    -- it still waits if it is still inside
    have hwaits : st'.cache.caller c ≠ none → st'.cache.value phase.slot = none →
        st'.completions phase.slot + start.failures c phase.slot =
          start.completions phase.slot + st'.failures c phase.slot →
        Tally c phase.slot start st' := by
      intro hin' hv' hcount'
      rcases slot_step hstep hc hcancel with hc' | ⟨phase', hc', hslot'⟩
      · exact absurd hc' hin'
      · exact .waiting hc' hslot' hv' hcount'
    cases slot_move wf hs hstep with
    | same hvalue hprobing hended =>
      obtain ⟨hdone, hfailed⟩ := counts_same (c := c) hended
      refine hwaits ?_ (hvalue.trans hv) (by rw [hdone, hfailed]; exact hcount)
      exact inside_of_same hstep hc hv hcancel fun since hc => (hprobing c since).mpr hc
    | starts _ _ hv' _ _ hended =>
      obtain ⟨hdone, hfailed⟩ := counts_same (c := c) hended
      exact hwaits (inside_of_poll hstep hc hv) hv' (by rw [hdone, hfailed]; exact hcount)
    | @drops c' since _ hc' hv' _ _ hended =>
      obtain ⟨hdone, hfailed⟩ := counts_same (c := c) hended
      refine hwaits ?_ hv' (by rw [hdone, hfailed]; exact hcount)
      rw [caller_step hstep hc not_false hcancel]
      simp
    | @ends c' since value _ hc' hv' _ _ hended =>
      have hdone := completions_ends hended
      have hfailed := failures_ends (c := c) hended
      by_cases hcc : c' = c
      · -- its own probe has ended
        subst hcc
        refine .returned ?_ (Or.inl ?_)
        · cases step_cases hstep with
          | finish _ hfin =>
            obtain ⟨s', since', -, rfl⟩ := ProbeCache.finish_cases hfin
            simp
        · simp at hfailed
          omega
      · have hc'' := caller_step hstep hc hcc hcancel
        cases value with
        | none =>
          refine hwaits (by rw [hc'']; simp) hv' ?_
          simp [hcc] at hfailed
          omega
        | some v =>
          refine .released hc'' rfl hv' (Or.inl ?_)
          simp at hfailed
          omega

/-! ## Counting the timeouts -/

/-- `c` has not waited beyond `deadline` and one timeout more: the probe in
flight, if there is one, started by then. -/
structure Paced (c : CallerId) (s : SlotId) (deadline : Instant) (timeout : Duration)
    (st : CacheState) : Prop where
  clock : st.clock ≤ deadline + timeout
  since : st.cache.caller c ≠ none → ∀ c' since,
    st.cache.caller c' = some (.probing s since) → since ≤ deadline
  idle : st.cache.caller c ≠ none → st.cache.value s = none → Idle s st → st.clock ≤ deadline

theorem Paced.mono {deadline deadline' : Instant} {timeout : Duration}
    (h : Paced c s deadline timeout st) (hle : deadline ≤ deadline') :
    Paced c s deadline' timeout st where
  clock := Nat.le_trans h.clock (Nat.add_le_add_right hle _)
  since hin c' since hc := Nat.le_trans (h.since hin c' since hc) hle
  idle hin hv hidle := Nat.le_trans (h.idle hin hv hidle) hle

/-- A probe that ends has kept its timeout, so the next one starts one timeout
later at most. -/
theorem Paced.ended {deadline : Instant} {timeout : Duration} (h : Paced c s deadline timeout st)
    (hclock : st'.clock = st.clock) (hidle : Idle s st') :
    Paced c s (deadline + timeout) timeout st' where
  clock := by
    rw [hclock]
    exact Nat.le_trans h.clock (Nat.le_add_right _ _)
  since _ c' since hc := absurd hc (hidle c' since)
  idle _ _ _ := by
    rw [hclock]
    exact h.clock

theorem clock_step (h : st.step l = some st') :
    st'.clock = st.clock ∨ ∃ d, l = .tick d ∧ st' = { st with clock := st.clock + d } := by
  cases step_cases h with
  | @tick d => exact Or.inr ⟨d, rfl, rfl⟩
  | call | poll | finish | cancel | mark => exact Or.inl rfl

/-- As long as its callers wait, time passes on a slot for the probe in flight. -/
theorem Paced.tick {deadline : Instant} {timeout d : Duration} (wf : st.cache.WF) {phase : Phase}
    (hc : st.cache.caller c = some phase) (h : Paced c phase.slot deadline timeout st)
    (htimely : Timely timeout st (.tick d)) (hprompt : Prompt phase.slot st (.tick d)) :
    Paced c phase.slot deadline timeout { st with clock := st.clock + d } := by
  have hin : st.cache.caller c ≠ none := by simp [hc]
  rcases polled_or_probing wf hc with ⟨c', phase', cache, r, hc', hslot, hpoll⟩ | ⟨c', since, hc'⟩
  · rw [hprompt c' phase' hc' hslot] at hpoll
    cases hpoll
  · refine ⟨?_, h.since, fun _ _ hidle => absurd hc' (hidle c' since)⟩
    exact Nat.le_trans (htimely c' _ since hc') (Nat.add_le_add_right (h.since hin c' since hc') _)

/-- A probe of another that ends without a value costs one timeout more. -/
theorem Paced.step {deadline : Instant} {timeout : Duration} (wf : st.cache.WF)
    {phase : Phase} (hc : st.cache.caller c = some phase)
    (h : Paced c phase.slot deadline timeout st) (hcancel : l ≠ .cancel c)
    (htimely : Timely timeout st l) (hprompt : Prompt phase.slot st l)
    (hstep : st.step l = some st') :
    ∃ lost, lost + st.failures c phase.slot ≤
        st'.failures c phase.slot + (if drops phase.slot st l then 1 else 0) ∧
      Paced c phase.slot (deadline + lost * timeout) timeout st' := by
  have hin : st.cache.caller c ≠ none := by simp [hc]
  -- nothing is lost
  have hkept : st.failures c phase.slot ≤ st'.failures c phase.slot →
      Paced c phase.slot deadline timeout st' →
      ∃ lost, lost + st.failures c phase.slot ≤
        st'.failures c phase.slot + (if drops phase.slot st l then 1 else 0) ∧
      Paced c phase.slot (deadline + lost * timeout) timeout st' := by
    intro hle hpaced
    exact ⟨0, by omega, by rw [Nat.zero_mul, Nat.add_zero]; exact hpaced⟩
  cases slot_move wf (wf.caller_lt hc) hstep with
  | same hvalue hprobing hended =>
    refine hkept (Nat.le_of_eq (counts_same hended).2.symm) ?_
    rcases clock_step hstep with hclock | ⟨d, rfl, rfl⟩
    · refine ⟨hclock ▸ h.clock, fun _ c' since hc' => ?_, fun _ hv hidle => ?_⟩
      · exact h.since hin c' since ((hprobing c' since).mp hc')
      · rw [hclock]
        refine h.idle hin (hvalue ▸ hv) ?_
        intro c' since hc'
        exact hidle c' since ((hprobing c' since).mpr hc')
    · exact h.tick wf hc htimely hprompt
  | @starts c' _ hv hidle _ hclock hprobing hended =>
    refine hkept (Nat.le_of_eq (counts_same hended).2.symm) ?_
    have hnow := h.idle hin hv hidle
    refine ⟨hclock ▸ h.clock, fun _ c'' since hc' => ?_, fun _ _ _ => hclock ▸ hnow⟩
    rw [hprobing c'' since hc']
    exact hnow
  | @drops c' since _ hc' hv' hidle hclock hended =>
    refine ⟨1, ?_, by rw [Nat.one_mul]; exact h.ended hclock hidle⟩
    rw [(counts_same (c := c) hended).2, Nat.add_comm]
    simp [CacheState.drops, hc']
  | @ends c' since value _ hc' hv' hidle hclock hended =>
    have hfailed := failures_ends (c := c) hended
    by_cases hlost : c' ≠ c ∧ value = none
    · rw [if_pos hlost] at hfailed
      exact ⟨1, by omega, by rw [Nat.one_mul]; exact h.ended hclock hidle⟩
    · rw [if_neg hlost] at hfailed
      refine hkept (by omega) ⟨hclock ▸ h.clock, fun _ c'' since' hc'' => ?_, fun hin' hv _ => ?_⟩
      · exact absurd hc'' (hidle c'' since')
      · -- its own probe lets it go, and a value sets the cell
        rw [hv'] at hv
        obtain rfl : c' = c := by
          by_contra hcc
          exact hlost ⟨hcc, hv⟩
        refine absurd ?_ hin'
        cases step_cases hstep with
        | finish _ hfin =>
          obtain ⟨s', since', -, rfl⟩ := ProbeCache.finish_cases hfin
          simp

/-- Every probe in flight has started. -/
def Started (st : CacheState) : Prop :=
  ∀ c s since, st.cache.caller c = some (.probing s since) → since ≤ st.clock

/-- A probe starts at the instant of its poll, and the clock never goes back. -/
theorem Started.step (h : Started st) (hstep : st.step l = some st') : Started st' := by
  intro c' s' since hc'
  cases step_cases hstep with
  | tick => exact Nat.le_trans (h c' s' since hc') (Nat.le_add_right _ _)
  | mark hnow => exact h c' s' since (ProbeCache.caller_markPresent.symm.trans hc')
  | @call a hash now ha hnow =>
    by_cases hca : c' = a
    · rw [hca, ProbeCache.caller_call_self] at hc'
      cases hc'
    · exact h c' s' since ((ProbeCache.caller_call hca).symm.trans hc')
  | @poll a cache r hpoll =>
    by_cases hca : c' = a
    · subst hca
      cases ProbeCache.poll_cases hpoll with
      | initialized | join => simp at hc'
      | first | turn =>
        simp at hc'
        exact Nat.le_of_eq hc'.2.symm
    · exact h c' s' since ((ProbeCache.caller_poll hpoll hca).symm.trans hc')
  | @finish a s'' since' value cache ha hfin =>
    by_cases hca : c' = a
    · obtain ⟨_, _, -, rfl⟩ := ProbeCache.finish_cases hfin
      simp [hca] at hc'
    · exact h c' s' since ((ProbeCache.caller_finish hfin hca).symm.trans hc')
  | @cancel a =>
    by_cases hca : c' = a
    · rw [hca, ProbeCache.caller_cancel_self] at hc'
      cases hc'
    · exact h c' s' since ((ProbeCache.caller_cancel hca).symm.trans hc')

end

/-! ## The claim of the source -/

/-- What a convoy would break. `c` got the slot `s` in the step from `start` to
`joined` and has come to `st` along `ls`. -/
structure NoConvoy (c : CallerId) (s : SlotId) (start joined : CacheState) (ls : List CacheLabel)
    (st : CacheState) : Prop where
  /-- Two probes end on its slot at most. -/
  completions : st.completions s ≤ start.completions s + 2
  /-- After the second it is told the value as soon as it is polled. -/
  inside : st.cache.caller c ≠ none → st.completions s ≤ start.completions s + 1 ∨
    ∃ v, st.cache.value s = some v ∧ st.cache.poll c st.clock =
      some (st.cache.setCaller c none, .acquired (.initialized v))
  /-- It returns, if whoever can get on does at last. -/
  returns : ∀ x : Execution CacheState.step, x.state 0 = st →
    (∀ c', x.Fair (CacheLabel.Advances c')) → (∀ n, x.label n ≠ .cancel c) →
    ∃ n, (x.state n).cache.caller c = none
  /-- It waits for two timeouts at most, however many callers there are. -/
  waiting : ∀ timeout, Run CacheState.step (Steady timeout c s) joined ls st →
    st.clock ≤ start.clock + 2 * timeout

section

variable {before ls : List CacheLabel} {start joined st : CacheState} {c : CallerId} {s : SlotId}
  {hash : Hash} {now : Instant}

/-- A step of `call` changes the cache alone. -/
theorem of_call (hcall : start.step (.call c hash now) = some joined) :
    joined.clock = start.clock ∧ joined.completed = start.completed := by
  cases step_cases hcall with
  | call => exact ⟨rfl, rfl⟩

/-- A caller starts out waiting, or on a slot whose cell is set. -/
theorem Tally.init (hcall : start.step (.call c hash now) = some joined)
    (hslot : joined.cache.caller c = some (.holding s)) : Tally c s start joined := by
  have hended : joined.ended s = start.ended s := by rw [ended, (of_call hcall).2, ended]
  obtain ⟨hdone, hfailed⟩ := counts_same (c := c) hended
  cases hv : joined.cache.value s with
  | none => exact .waiting hslot rfl hv (by rw [hdone, hfailed])
  | some v => exact .released hslot rfl hv (Or.inr ⟨hdone, hfailed⟩)

/-- The account of a caller along a run in which it is not dropped. -/
theorem tally_of_run (wf : joined.cache.WF) (hcall : start.step (.call c hash now) = some joined)
    (hslot : joined.cache.caller c = some (.holding s))
    (hrun : Run CacheState.step (Stays c) joined ls st) : Tally c s start st := by
  obtain ⟨-, -, htally⟩ := hrun.invariant
    (I := fun t => t.cache.WF ∧ s < t.cache.fresh ∧ Tally c s start t)
    (fun t l t' ⟨wf, hs, htally⟩ hok h =>
      ⟨step_wf wf h, Nat.lt_of_lt_of_le hs (step_extends h).fresh, htally.step wf hs hok h⟩)
    ⟨wf, wf.caller_lt hslot, Tally.init hcall hslot⟩
  exact htally

/-- The last step of a run drops one prober more, or none. -/
theorem dropped_snoc {ok : CacheState → CacheLabel → Prop} {t u : CacheState} {l : CacheLabel}
    (s : SlotId) (hrun : Run CacheState.step ok joined ls t) (hstep : t.step l = some u) :
    dropped s joined (ls ++ [l]) = dropped s joined ls + if drops s t l then 1 else 0 := by
  rw [dropped, hrun.outputs_snoc hstep, List.count_append, dropped, List.count_singleton]
  simp

/-- One timeout for the probe in flight, and one for each that was lost. -/
theorem paced_of_run (wf : joined.cache.WF) (hstarted : Started joined) {timeout : Duration}
    (hslot : joined.cache.caller c = some (.holding s))
    (hrun : Run CacheState.step (Steady timeout c s) joined ls st) :
    (∀ phase, st.cache.caller c = some phase → phase.slot = s) ∧
    ∃ lost, lost + joined.failures c s ≤ st.failures c s + dropped s joined ls ∧
      Paced c s (joined.clock + lost * timeout) timeout st := by
  induction hrun with
  | nil =>
    refine ⟨?_, 0, by simp [dropped, outputs], ?_⟩
    · intro phase hc
      rw [hslot] at hc
      cases hc
      rfl
    · rw [Nat.zero_mul, Nat.add_zero]
      exact ⟨Nat.le_add_right _ _, fun _ c' since hc' => hstarted c' s since hc',
        fun _ _ _ => Nat.le_refl _⟩
  | @snoc ls t u l hrun hok hstep ih =>
    obtain ⟨⟨hin, hcancel⟩, htimely, hprompt⟩ := hok
    obtain ⟨hon, lost, hlost, hpaced⟩ := ih
    obtain ⟨phase, hc⟩ := Option.ne_none_iff_exists'.mp hin
    obtain rfl := hon phase hc
    obtain ⟨lost', hlost', hpaced'⟩ :=
      hpaced.step (wf_of_run hrun wf) hc hcancel htimely hprompt hstep
    refine ⟨?_, lost + lost', ?_, ?_⟩
    · intro phase' hc'
      rcases slot_step hstep hc hcancel with hnone | ⟨phase'', hc'', hslot'⟩
      · rw [hnone] at hc'
        cases hc'
      · rw [hc''] at hc'
        cases hc'
        exact hslot'
    · have hdropped := dropped_snoc phase.slot hrun hstep
      omega
    · rw [Nat.add_mul, ← Nat.add_assoc]
      exact hpaced'

/-- A caller waits for one timeout, and for one more with every probe of another
caller that fails on its slot meanwhile. -/
theorem clock_of_steady {timeout : Duration}
    (hreach : Run CacheState.step (fun _ _ => True) CacheState.init before start)
    (hcall : start.step (.call c hash now) = some joined)
    (hslot : joined.cache.caller c = some (.holding s))
    (hrun : Run CacheState.step (Steady timeout c s) joined ls st) :
    st.clock ≤ start.clock +
      (st.failures c s + dropped s joined ls - start.failures c s + 1) * timeout := by
  have hstarted : Started start := hreach.invariant (I := Started) (fun _ _ _ h _ hst => h.step hst)
    (fun _ _ _ hc => by cases hc)
  obtain ⟨-, lost, hlost, hwaited⟩ :=
    paced_of_run (step_wf (run_wf hreach) hcall) (hstarted.step hcall) hslot hrun
  have hfailed : joined.failures c s = start.failures c s :=
    (counts_same (by rw [ended, (of_call hcall).2, ended])).2
  refine Nat.le_trans hwaited.clock ?_
  rw [(of_call hcall).1, Nat.add_assoc, ← Nat.succ_mul]
  exact Nat.add_le_add_left (Nat.mul_le_mul_right _ (by omega)) _

/-- **When there is no convoy.** A caller that is not dropped returns after two
probes on its slot at most, and waits for two timeouts at most, if no more than one
probe of another caller fails there while it is inside, be it by an `Err` or because
its own caller is dropped. With a second `Err` it does not. The others may come in
any number and order. -/
theorem no_convoy_of_oneFailure
    (hreach : Run CacheState.step (fun _ _ => True) CacheState.init before start)
    (hcall : start.step (.call c hash now) = some joined)
    (hslot : joined.cache.caller c = some (.holding s))
    (hrun : Run CacheState.step (Stays c) joined ls st) :
    (st.failures c s + dropped s joined ls ≤ start.failures c s + 1 →
      NoConvoy c s start joined ls st) ∧
    (NoConvoy c s start joined ls st → st.failures c s ≤ start.failures c s + 1) := by
  have wf : joined.cache.WF := step_wf (run_wf hreach) hcall
  have htally := tally_of_run wf hcall hslot hrun
  constructor
  · intro hone
    refine ⟨?_, ?_, ?_, ?_⟩
    · cases htally <;> omega
    · intro hin
      cases htally with
      | waiting => exact Or.inl (by omega)
      | @released phase v hc hslot' hv hcount =>
        refine Or.inr ⟨v, hv, ?_⟩
        subst hslot'
        exact (wf_of_run hrun wf).poll_told hc hv
      | returned hc => exact absurd hc hin
    · intro x hx hfair hstays
      exact every_caller_returns (hx ▸ wf_of_run hrun wf) hfair hstays
    · intro timeout hsteady
      have hwait := clock_of_steady hreach hcall hslot hsteady
      refine Nat.le_trans hwait (Nat.add_le_add_left (Nat.mul_le_mul_right _ ?_) _)
      omega
  · -- a second failure is a second probe after which it still waits
    intro h
    have htwo := h.completions
    cases htally with
    | @waiting phase hc _ hv hcount =>
      rcases h.inside (by simp [hc]) with hone | ⟨v, hv', -⟩
      · omega
      · rw [hv] at hv'
        cases hv'
    | released _ _ _ hcount => omega
    | returned _ hcount => omega

end

/-! ## Three callers before -/

instance (c : CallerId) (st : CacheState) (l : CacheLabel) : Decidable (Stays c st l) :=
  inferInstanceAs (Decidable (_ ∧ _))

/-- Whether somebody can be polled is decided by going through the callers. -/
theorem prompt_tick_iff {s : SlotId} {d : Duration} {st : CacheState} :
    Prompt s st (.tick d) ↔ ∀ e ∈ st.cache.callers.entries, e.2.slot = s →
      st.cache.poll e.1 st.clock = none := by
  constructor
  · intro h e he hslot
    exact h e.1 e.2 (AList.mem_lookup_iff.mpr he) hslot
  · intro h c phase hc hslot
    exact h ⟨c, phase⟩ (AList.mem_lookup_iff.mp hc) hslot

instance (s : SlotId) (st : CacheState) : (l : CacheLabel) → Decidable (Prompt s st l)
  | .tick _ => decidable_of_iff _ prompt_tick_iff.symm
  | .call _ _ _ => isTrue trivial
  | .poll _ => isTrue trivial
  | .finish _ _ => isTrue trivial
  | .cancel _ => isTrue trivial
  | .mark _ _ => isTrue trivial

instance (timeout : Duration) (c : CallerId) (s : SlotId) (st : CacheState) (l : CacheLabel) :
    Decidable (Steady timeout c s st l) := inferInstanceAs (Decidable (_ ∧ _ ∧ _))

/-- Three callers of one key: the first runs its probe, the others queue. -/
def threeCallers : List CacheLabel :=
  [.call 0 "abc" 0, .poll 0, .call 1 "abc" 0, .poll 1, .call 2 "abc" 0, .poll 2]

/-- A fourth joins them, and the three probes fail one after the other. -/
def threeFailures : List CacheLabel :=
  [.poll 3, .tick (fromSecs 30), .finish 0 none, .poll 1, .tick (fromSecs 30), .finish 1 none,
    .poll 2, .tick (fromSecs 30), .finish 2 none]

/-- A fourth joins them, the first probe fails, and the second finds the object. -/
def oneFailure : List CacheLabel :=
  [.poll 3, .tick (fromSecs 30), .finish 0 none, .poll 1, .tick (fromSecs 30),
    .finish 1 (some true)]

/-- The fourth caller, and what becomes of it along `ls`. -/
theorem exists_fourthCaller (ls : List CacheLabel) (P : CacheState → Prop) [DecidablePred P]
    (h : ((exec CacheState.step (fun _ _ => true) init threeCallers).any fun start =>
      (start.step (.call 3 "abc" 0)).any fun joined =>
        start.clock = 0 ∧ start.completions 0 = 0 ∧ start.failures 3 0 = 0 ∧
          joined.cache.caller 3 = some (.holding 0) ∧ dropped 0 joined ls = 0 ∧
          (exec CacheState.step (fun t l => decide (Steady (fromSecs 30) 3 0 t l)) joined ls).any
            fun st => P st) = true) :
    ∃ start joined st, Run CacheState.step (fun _ _ => True) init threeCallers start ∧
      start.step (.call 3 "abc" 0) = some joined ∧ joined.cache.caller 3 = some (.holding 0) ∧
      Run CacheState.step (Steady (fromSecs 30) 3 0) joined ls st ∧
      (start.clock = 0 ∧ start.completions 0 = 0 ∧ start.failures 3 0 = 0) ∧
      dropped 0 joined ls = 0 ∧ P st := by
  obtain ⟨start, hstart, h⟩ := (Option.any_eq_true _ _).mp h
  obtain ⟨joined, hcall, h⟩ := (Option.any_eq_true _ _).mp h
  obtain ⟨hclock, hdone, hfailed, hslot, hdropped, h⟩ := of_decide_eq_true h
  obtain ⟨st, hrun, hP⟩ := exists_run_of_exec (fun _ _ h => of_decide_eq_true h) h
  exact ⟨start, joined, st, (run_of_exec _ hstart).mono fun _ _ _ => trivial, hcall, hslot, hrun,
    ⟨hclock, hdone, hfailed⟩, hdropped, hP⟩

/-- Three probes have ended on its slot, it has waited for three timeouts, and the
fourth caller still waits on an empty cell. -/
theorem fourthCaller_waits :
    ∃ start joined st, Run CacheState.step (fun _ _ => True) init threeCallers start ∧
      start.step (.call 3 "abc" 0) = some joined ∧ joined.cache.caller 3 = some (.holding 0) ∧
      Run CacheState.step (Steady (fromSecs 30) 3 0) joined threeFailures st ∧
      (start.clock = 0 ∧ start.completions 0 = 0 ∧ start.failures 3 0 = 0) ∧
      dropped 0 joined threeFailures = 0 ∧
      st.clock = fromSecs 90 ∧ st.completions 0 = 3 ∧ st.cache.caller 3 = some (.queued 0) ∧
      st.cache.value 0 = none := exists_fourthCaller _ _ (by decide)

/-- With one failure it is told after two probes, and two timeouts are its wait. -/
theorem fourthCaller_no_convoy :
    ∃ start joined st, Run CacheState.step (fun _ _ => True) init threeCallers start ∧
      Run CacheState.step (Steady (fromSecs 30) 3 0) joined oneFailure st ∧
      NoConvoy 3 0 start joined oneFailure st ∧
      st.clock = fromSecs 60 ∧ st.completions 0 = 2 ∧ st.cache.caller 3 = some (.queued 0) := by
  obtain ⟨start, joined, st, hreach, hcall, hslot, hrun, ⟨-, -, hzero⟩, hlost, hone, htold⟩ :=
    exists_fourthCaller oneFailure (fun st => st.failures 3 0 = 1 ∧ st.clock = fromSecs 60 ∧
      st.completions 0 = 2 ∧ st.cache.caller 3 = some (.queued 0)) (by decide)
  refine ⟨start, joined, st, hreach, hrun, ?_, htold⟩
  exact (no_convoy_of_oneFailure hreach hcall hslot (hrun.mono fun _ _ hok => hok.1)).1 (by omega)

end NxCacheServer.Server.CacheState
