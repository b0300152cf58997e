import NxCacheServer.Lib.Fair
import NxCacheServer.Server.Queueing

/-!
# Every caller returns

A caller of `present` that is not dropped returns, however many others there
are and however their probes end. Only fairness is assumed: whoever can be
polled is polled at last, and a probe that is in flight ends.

A caller has at most three steps of its own (`Phase.left`), and in the queue
nobody overtakes it. So the wait is measured by the callers ahead and by what
the one at the head has left; each step of the head makes it shorter
(`Line.leadsTo`).

The proof goes from the inside out:
- a step of a caller leaves it with fewer steps to go, or it has returned (`advance`);
- who holds the permit, or has just got its slot, gets on by fairness alone
  (`probing_leadsTo`, `holding_leadsTo`);
- who is in the queue gets to the head of it, by descent over the callers ahead and
  the steps of the first of them (`ranked_leadsTo`);
- so whatever the phase of a caller is, it has fewer steps to go at last
  (`left_leadsTo`), and there are three of them at most.
-/

namespace NxCacheServer.Server

open NxCacheServer.Domain NxCacheServer.Lib

/-- A step by which `c` gets on: a poll of it gets through, or its probe ends. -/
def CacheLabel.Advances (c : CallerId) : CacheLabel → Prop
  | .poll c' => c' = c
  | .finish c' _ => c' = c
  | _ => False

/-- How many steps of its own a caller has left at most. -/
def Phase.left : Phase → Nat
  | .holding _ => 3
  | .queued _ => 2
  | .probing _ _ => 1

namespace CacheState

variable {st st' : CacheState} {l : CacheLabel} {c a : CallerId} {s : SlotId} {phase : Phase}
  {ahead : List CallerId}

/-- A caller moves only by a step of its own, unless it is dropped. -/
theorem caller_step (h : st.step l = some st') (hc : st.cache.caller c = some phase)
    (hl : ¬ l.Advances c) (hcancel : l ≠ .cancel c) : st'.cache.caller c = some phase := by
  cases step_cases h with
  | tick => exact hc
  | @call c' hash now hc' hnow =>
    have hne : c ≠ c' := by
      rintro rfl
      rw [hc] at hc'
      cases hc'
    exact (ProbeCache.caller_call hne).trans hc
  | @poll c' cache r hpoll => exact (ProbeCache.caller_poll hpoll (fun h => hl h.symm)).trans hc
  | @finish c' s since value cache hc' hfin =>
    exact (ProbeCache.caller_finish hfin (fun h => hl h.symm)).trans hc
  | @cancel c' => exact (ProbeCache.caller_cancel (by rintro rfl; exact hcancel rfl)).trans hc
  | mark hnow => exact ProbeCache.caller_markPresent.trans hc

/-- By a step of its own it returns, or comes closer to it. -/
theorem advance (h : st.step l = some st') (hc : st.cache.caller c = some phase)
    (hl : l.Advances c) : st'.cache.caller c = none ∨
      ∃ phase', st'.cache.caller c = some phase' ∧ phase'.slot = phase.slot ∧
        phase'.left < phase.left := by
  cases step_cases h with
  | @poll c' cache r hpoll =>
    obtain rfl : c' = c := hl
    cases ProbeCache.poll_cases hpoll with
    | initialized hc' hv => exact Or.inl (by simp)
    | @first s' hc' hcell =>
      rw [hc] at hc'
      cases hc'
      exact Or.inr ⟨.probing s' st.clock, by simp, rfl, by simp [Phase.left]⟩
    | @join s' b q hc' hcell =>
      rw [hc] at hc'
      cases hc'
      exact Or.inr ⟨.queued s', by simp, rfl, by simp [Phase.left]⟩
    | @turn s' q hc' hcell =>
      rw [hc] at hc'
      cases hc'
      exact Or.inr ⟨.probing s' st.clock, by simp, rfl, by simp [Phase.left]⟩
  | @finish c' s since value cache hc' hfin =>
    obtain rfl : c' = c := hl
    obtain ⟨s', since', -, rfl⟩ := ProbeCache.finish_cases hfin
    exact Or.inl (by simp)
  | tick | call | cancel | mark => exact absurd hl not_false

/-! ## Who can get on -/

theorem enabled_of_poll {r : ProbeCache.Polled} {cache : ProbeCache}
    (h : st.cache.poll c st.clock = some (cache, r)) :
    Execution.Enabled step (CacheLabel.Advances c) st :=
  ⟨.poll c, rfl, by simp [step, h]⟩

theorem enabled_of_probing {since : Instant} (hc : st.cache.caller c = some (.probing s since)) :
    Execution.Enabled step (CacheLabel.Advances c) st :=
  ⟨.finish c none, rfl, by simp [step, ProbeCache.finish, hc]⟩

/-- Whoever holds its slot can be polled, whatever is in the cell. -/
theorem enabled_of_holding (hc : st.cache.caller c = some (.holding s)) :
    Execution.Enabled step (CacheLabel.Advances c) st := by
  obtain ⟨cache, r, h⟩ := ProbeCache.poll_holding st.clock hc
  exact enabled_of_poll h

/-- Whoever is at the head of a queue can get on. -/
theorem enabled_of_head (wf : st.cache.WF) (hv : st.cache.value s = none) {q : List CallerId}
    (hq : st.cache.queue s = a :: q) : Execution.Enabled step (CacheLabel.Advances a) st := by
  rcases wf.mem_queue (show a ∈ st.cache.queue s by simp [hq]) with hqueued | ⟨since, hprobing⟩
  · exact enabled_of_poll (ProbeCache.poll_head ⟨hqueued, hv, q, hq⟩)
  · exact enabled_of_probing hprobing

/-! ## Executions -/

/-- `c` has at most `k` steps of its own left. -/
def AtMost (c : CallerId) (k : Nat) (st : CacheState) : Prop :=
  ∀ phase, st.cache.caller c = some phase → phase.left ≤ k

/-- `c` waits for a cell that is set. -/
def Released (c : CallerId) (s : SlotId) (st : CacheState) : Prop :=
  st.cache.caller c = some (.queued s) ∧ ∃ v, st.cache.value s = some v

/-- `c` waits behind `ahead`, and `a` at the head of the queue is in `phase`. -/
structure Line (c : CallerId) (s : SlotId) (ahead : List CallerId) (a : CallerId) (phase : Phase)
    (st : CacheState) : Prop where
  line : st.cache.InLine c s ahead
  head : ∃ q, st.cache.queue s = a :: q
  phase : st.cache.caller a = some phase

/-- A wait of `rank`: three for each caller ahead, and what the head has left. -/
def Ranked (c : CallerId) (s : SlotId) (rank : Nat) (st : CacheState) : Prop :=
  ∃ ahead a phase, Line c s ahead a phase st ∧ 3 * ahead.length + phase.left = rank

/-- The wait of `c` in the queue is over, or shorter than `rank`. -/
def Closer (c : CallerId) (s : SlotId) (rank : Nat) (st : CacheState) : Prop :=
  (∃ rank', rank' < rank ∧ Ranked c s rank' st) ∨ Released c s st ∨ AtMost c 1 st

/-- A step of its own takes a caller one phase further. -/
theorem atMost_of_advance {k : Nat} (h : st.step l = some st')
    (hc : st.cache.caller c = some phase) (hl : l.Advances c) (hk : phase.left ≤ k + 1) :
    AtMost c k st' := by
  intro phase' hc'
  rcases advance h hc hl with hreturned | ⟨phase'', hphase, -, hleft⟩
  · rw [hreturned] at hc'
    cases hc'
  · rw [hphase] at hc'
    cases hc'
    exact Nat.le_of_lt_succ (Nat.lt_of_lt_of_le hleft hk)

/-- Every line has a head, which is queued or probes. -/
theorem exists_line (wf : st.cache.WF) (hline : st.cache.InLine c s ahead) :
    ∃ a phase, Line c s ahead a phase st ∧ phase.left < 3 := by
  obtain ⟨a, q, hq⟩ : ∃ a q, st.cache.queue s = a :: q := by
    obtain ⟨-, -, behind, hq⟩ := hline
    cases ahead with
    | nil => exact ⟨c, behind, hq⟩
    | cons b ahead => exact ⟨b, _, hq⟩
  rcases wf.mem_queue (show a ∈ st.cache.queue s by simp [hq]) with hc | ⟨since, hc⟩
  · exact ⟨a, .queued s, ⟨hline, ⟨q, hq⟩, hc⟩, by simp [Phase.left]⟩
  · exact ⟨a, .probing s since, ⟨hline, ⟨q, hq⟩, hc⟩, by simp [Phase.left]⟩

/-- The head of a line depends on who is in it, and on nothing else. -/
theorem Line.head_eq {b : CallerId} {phase' : Phase} (h : Line c s ahead a phase st)
    (h' : Line c s ahead b phase' st') : a = b := by
  obtain ⟨⟨-, -, behind, hq⟩, ⟨q, ha⟩, -⟩ := h
  obtain ⟨⟨-, -, behind', hq'⟩, ⟨q', hb⟩, -⟩ := h'
  rw [ha] at hq
  rw [hb] at hq'
  cases ahead with
  | nil =>
    injection hq with ha
    injection hq' with hb
    exact ha.trans hb.symm
  | cons d ahead =>
    injection hq with ha
    injection hq' with hb
    exact ha.trans hb.symm

/-- A step leaves the line as it is or makes it shorter, and a step of its head
makes it shorter. -/
theorem Line.step (wf : st.cache.WF) (hline : Line c s ahead a phase st)
    (hcancel : l ≠ .cancel c) (h : st.step l = some st') :
    Line c s ahead a phase st' ∧ ¬ l.Advances a ∨
      Closer c s (3 * ahead.length + phase.left) st' := by
  have wf' := step_wf wf h
  by_cases hown : l.Advances c
  · exact Or.inr (Or.inr (Or.inr (atMost_of_advance h hline.line.1 hown (Nat.le_refl _))))
  have hstays := caller_step h hline.line.1 hown hcancel
  rcases inLine_step wf hline.line h hstays with hset | hsame | ⟨ahead', hlt, hline'⟩
  · exact Or.inr (Or.inr (Or.inl ⟨hstays, hset⟩))
  · -- the head is still in the queue, so it was not dropped
    obtain ⟨b, phase', hnew, -⟩ := exists_line wf' hsame
    obtain rfl := hline.head_eq hnew
    by_cases hl : l.Advances a
    · rcases advance h hline.phase hl with hreturned | ⟨phase'', hc, -, hleft⟩
      · rw [hnew.phase] at hreturned
        cases hreturned
      · exact Or.inr (Or.inl ⟨_, Nat.add_lt_add_left hleft _, ahead, a, phase'',
          ⟨hsame, hnew.head, hc⟩, rfl⟩)
    · refine Or.inl ⟨⟨hsame, hnew.head, caller_step h hline.phase hl ?_⟩, hl⟩
      rintro rfl
      have hgone := hnew.phase
      cases step_cases h with
      | cancel =>
        rw [ProbeCache.caller_cancel_self] at hgone
        cases hgone
  · obtain ⟨b, phase', hnew, hleft⟩ := exists_line wf' hline'
    exact Or.inr (Or.inl ⟨_, by omega, ahead', b, phase', hnew, rfl⟩)

section

variable {x : Execution CacheState.step} (hwf : ∀ n, (x.state n).cache.WF)
  (hfair : ∀ c', x.Fair (CacheLabel.Advances c')) (hstays : ∀ n, x.label n ≠ .cancel c)

include hfair hstays

/-- A caller that can get on as long as `P` lasts has a step less to go. -/
theorem own_leadsTo {P : CacheState → Prop} (phase : Phase) {k : Nat} (hk : phase.left ≤ k + 1)
    (hP : ∀ n, P (x.state n) → (x.state n).cache.caller c = some phase ∧
      Execution.Enabled step (CacheLabel.Advances c) (x.state n))
    (hkeep : ∀ n, P (x.state n) → (x.state (n + 1)).cache.caller c = some phase →
      P (x.state (n + 1))) : x.LeadsTo P (AtMost c k) := by
  refine (hfair c).leadsTo_of_step ?_ (fun n hn => (hP n hn).2)
  intro n hn
  obtain ⟨hc, -⟩ := hP n hn
  by_cases hl : (x.label n).Advances c
  · exact Or.inr (atMost_of_advance (x.next n) hc hl hk)
  · exact Or.inl ⟨hkeep n hn (caller_step (x.next n) hc hl (hstays n)), hl⟩

/-- Whoever has its slot enters the queue at last. -/
theorem holding_leadsTo :
    x.LeadsTo (fun st => st.cache.caller c = some (.holding s)) (AtMost c 2) :=
  own_leadsTo hfair hstays (.holding s) (Nat.le_refl 3)
    (fun _ hc => ⟨hc, enabled_of_holding hc⟩)
    (fun _ _ hc => hc)

theorem probing_leadsTo {since : Instant} :
    x.LeadsTo (fun st => st.cache.caller c = some (.probing s since)) (AtMost c 0) :=
  own_leadsTo hfair hstays (.probing s since) (Nat.le_refl 1)
    (fun _ hc => ⟨hc, enabled_of_probing hc⟩)
    (fun _ _ hc => hc)

include hwf

/-- A queue comes to everybody in it. -/
theorem ranked_leadsTo (rank : Nat) :
    x.LeadsTo (Ranked c s rank) (fun st => Released c s st ∨ AtMost c 1 st) := by
  refine Execution.LeadsTo.descent Nat.lt_wfRel.wf (fun rank => ?_) rank
  intro n hn
  obtain ⟨ahead, a, phase, hline, rfl⟩ := hn
  -- the head can get on as long as it is the head
  have hhead : x.LeadsTo (Line c s ahead a phase)
      (Closer c s (3 * ahead.length + phase.left)) := by
    refine (hfair a).leadsTo_of_step ?_ ?_
    · intro m hline
      exact hline.step (hwf m) (hstays m) (x.next m)
    · intro m hline
      obtain ⟨q, hq⟩ := hline.head
      exact enabled_of_head (hwf m) hline.line.2.1 hq
  exact hhead n hline

/-- Whoever is at the head, or has the value, gets on at last. -/
theorem released_leadsTo : x.LeadsTo (Released c s) (AtMost c 1) := by
  refine own_leadsTo hfair hstays (.queued s) (Nat.le_refl 2) ?_ ?_
  · intro n hn
    obtain ⟨hc, v, hv⟩ := hn
    exact ⟨hc, enabled_of_poll (ProbeCache.poll_set hc hv)⟩
  · intro n hn hc
    obtain ⟨hqueued, v, hv⟩ := hn
    exact ⟨hc, v, value_step (hwf n) ((hwf n).caller_lt hqueued) hv (x.next n)⟩

/-- Whoever is queued gets on at last: by descent along its place in the queue, which
only drops. -/
theorem queued_leadsTo :
    x.LeadsTo (fun st => st.cache.caller c = some (.queued s)) (AtMost c 1) := by
  intro n hc
  cases hv : (x.state n).cache.value s with
  | some v => exact released_leadsTo hwf hfair hstays n ⟨hc, v, hv⟩
  | none =>
    obtain ⟨ahead, hline⟩ := (hwf n).inLine hc hv
    obtain ⟨a, phase, hline, -⟩ := exists_line (hwf n) hline
    exact ((ranked_leadsTo hwf hfair hstays _).orElse (released_leadsTo hwf hfair hstays)) n
      ⟨ahead, a, phase, hline, rfl⟩

/-- Each of its steps comes at last. -/
theorem left_leadsTo (k : Nat) : x.LeadsTo (AtMost c (k + 1)) (AtMost c k) := by
  intro n hn
  by_cases hk : AtMost c k (x.state n)
  · exact ⟨n, Nat.le_refl n, hk⟩
  obtain ⟨phase, hc, hleft⟩ : ∃ phase, (x.state n).cache.caller c = some phase ∧
      phase.left = k + 1 := by
    simp only [AtMost, not_forall] at hk
    obtain ⟨phase, hc, hlt⟩ := hk
    exact ⟨phase, hc, Nat.le_antisymm (hn phase hc) (Nat.lt_of_not_le hlt)⟩
  cases phase with
  | holding s =>
    injection hleft with hleft
    subst hleft
    exact holding_leadsTo hfair hstays n hc
  | queued s =>
    injection hleft with hleft
    subst hleft
    exact queued_leadsTo hwf hfair hstays n hc
  | probing s since =>
    injection hleft with hleft
    subst hleft
    exact probing_leadsTo hfair hstays n hc

end

/-- **Every caller returns.** Whoever is not dropped is inside `present` only for
so long. -/
theorem every_caller_returns {x : Execution CacheState.step} (hwf : (x.state 0).cache.WF)
    (hfair : ∀ c', x.Fair (CacheLabel.Advances c')) (hstays : ∀ n, x.label n ≠ .cancel c) :
    ∃ n, (x.state n).cache.caller c = none := by
  have wf : ∀ n, (x.state n).cache.WF :=
    x.invariant (I := fun st => st.cache.WF) hwf fun _ _ _ wf h => step_wf wf h
  have hleft : AtMost c 3 (x.state 0) := by
    intro phase _
    cases phase <;> simp [Phase.left]
  have hsteps := left_leadsTo wf hfair hstays
  obtain ⟨n, -, hn⟩ := ((hsteps 2).trans ((hsteps 1).trans (hsteps 0))) 0 hleft
  refine ⟨n, ?_⟩
  cases hc : (x.state n).cache.caller c with
  | none => rfl
  | some phase =>
    have hno := hn phase hc
    cases phase <;> exact absurd hno (by simp [Phase.left])

end CacheState

end NxCacheServer.Server
