import NxCacheServer.Infra.Startup
import NxCacheServer.Server.Tariff
import NxCacheServer.System.Sessions

/-!
# What a run costs

The requests to S3 that a request has made so far, answered or not, stay within
the budget of its role, in every state of every run: however its steps mix with
others, whatever fails, and also when its client goes away.

A request here is one operation of the SDK. The client of `S3Storage::new` sends
an operation that fails again, `maxAttempts` times at most, and S3 bills each of
these, so the bill may be that many times as high (`billed`).

The proof is short because the work is done in `NxCacheServer.Server.Tariff`: what is
spent is a sum over the trace, and what a request may still spend is what its task,
being a rest of its program, needs at most.
-/

namespace NxCacheServer.System

open NxCacheServer.Domain NxCacheServer.Infra NxCacheServer.Server NxCacheServer.Lib

/-- What a task may still spend, besides what it has asked for already. -/
def Task.AtMost (tariff : Tariff) (n : Nat) : Task → Prop
  | .ready p => p.AtMost tariff.cost n
  | .calling _ _ _ k => ∀ reply, (k reply).AtMost tariff.cost n
  | _ => True

/-- The request to S3 that an entry of `r` makes. -/
def Entry.call (r : ReqId) (entry : Entry) : Option S3Call :=
  if entry.req = r then
    match entry.event with
    | .called call => some call
    | _ => none
  else none

namespace World

variable {env : Env} {tariff : Tariff} {w w' : World} {r r' : ReqId} {l : Label} {call : S3Call}
  {event : Event}

/-- What `r` has asked of S3 so far, newest first. -/
def called (w : World) (r : ReqId) : List S3Call := w.trace.filterMap (Entry.call r)

/-- What that costs, each of them sent once. -/
def spent (tariff : Tariff) (w : World) (r : ReqId) : Nat := ((w.called r).map tariff.price).sum

/-- What it costs if S3 has been sent them as often as `sent` says, in this order. -/
def billed (tariff : Tariff) (sent : List Nat) (w : World) (r : ReqId) : Nat :=
  (List.zipWith (fun attempts call => attempts * tariff.price call) sent (w.called r)).sum

/-- Each operation is sent so often at most, so the bill is at most so many times as
much. -/
theorem billed_le {attempts : Nat} {sent : List Nat} (hsent : ∀ n ∈ sent, n ≤ attempts) :
    w.billed tariff sent r ≤ attempts * w.spent tariff r := by
  unfold billed spent
  generalize w.called r = calls
  induction sent generalizing calls with
  | nil => exact Nat.zero_le _
  | cons n sent ih =>
    cases calls with
    | nil => exact Nat.zero_le _
    | cons call calls =>
      rw [List.zipWith_cons_cons, List.sum_cons, List.map_cons, List.sum_cons, Nat.mul_add]
      exact Nat.add_le_add (Nat.mul_le_mul_right _ (hsent n List.mem_cons_self))
        (ih (fun m hm => hsent m (List.mem_cons_of_mem _ hm)) calls)

theorem spent_record_called :
    (w.record r (.called call)).spent tariff r' =
      if r' = r then tariff.price call + w.spent tariff r' else w.spent tariff r' := by
  by_cases hr : r' = r
  · subst hr
    simp [spent, called, Entry.call]
  · simp [spent, called, Entry.call, hr, Ne.symm hr]

theorem spent_record (hevent : ∀ call, event ≠ .called call) :
    (w.record r event).spent tariff r' = w.spent tariff r' := by
  have hnone : Entry.call r' ⟨w.clock, r, event⟩ = none := by
    unfold Entry.call
    split
    · cases event with
      | called call => exact absurd rfl (hevent call)
      | _ => rfl
    · rfl
  rw [spent, called, trace_record, List.filterMap_cons, hnone]
  rfl

variable [RustChar]

/-- No request has spent more than its budget, or will. -/
def Afford (tariff : Tariff) (env : Env) (w : World) : Prop :=
  ∀ r, (w.tasks r = .absent → w.spent tariff r = 0) ∧
    ∃ left, w.spent tariff r + left ≤ tariff.budget (env.role r) (env.body r) ∧
      (w.tasks r).AtMost tariff left

theorem afford_init {objects : Hash → Option Bytes} : Afford tariff env (init objects) :=
  fun _ => ⟨fun _ => rfl, 0, Nat.zero_le _, trivial⟩

/-- A step costs `r` nothing, unless it makes a request to S3. -/
theorem spent_of_step (h : w.step env l = some w') (r : ReqId) :
    w'.spent tariff r = w.spent tariff r ∨ ∃ call k, w.tasks r = .ready (.act (.s3 call) k) ∧
      w'.tasks r = .calling call w.clock none k ∧
      w'.spent tariff r = tariff.price call + w.spent tariff r := by
  cases step_cases h with
  | @call q call k htask =>
    rw [spent_record_called]
    by_cases hr : r = q
    · subst hr
      exact Or.inr ⟨call, k, htask, by simp, if_pos rfl⟩
    · exact Or.inl (if_neg hr)
  | arrive _ | answer _ | act _ _ | deliver _ =>
    rw [spent_record (by simp)]
    exact Or.inl rfl
  | _ => exact Or.inl rfl

/-- A call is paid from what is left of the budget. -/
theorem Afford.step (hw : Afford tariff env w) (h : w.step env l = some w') :
    Afford tariff env w' := by
  intro r
  obtain ⟨habsent, left, hleft, htask₀⟩ := hw r
  rcases spent_of_step h r with hspent | ⟨call, k, htask, htask', hspent⟩
  · rw [hspent]
    cases moves_of_step h r with
    | stays htask' _ =>
      rw [htask']
      exact hw r
    | arrives htask htask' _ _ =>
      rw [htask', habsent htask]
      refine ⟨(fun hno => by cases hno), _, Nat.le_of_eq (Nat.zero_add _), ?_⟩
      exact serve_atMost tariff (env.config (env.inst r)) (env.request r)
    | calls htask htask' _ _ =>
      rw [htask, Task.AtMost, Prog.AtMost.act_iff] at htask₀
      rw [htask']
      exact ⟨(fun hno => by cases hno), _,
        Nat.le_trans (Nat.add_le_add_left (Nat.sub_le _ _) _) hleft, htask₀.2⟩
    | @acts e resp k cache htask _ htask' _ _ _ =>
      rw [htask, Task.AtMost, Prog.AtMost.act_iff] at htask₀
      rw [htask']
      exact ⟨(fun hno => by cases hno), _,
        Nat.le_trans (Nat.add_le_add_left (Nat.sub_le _ _) _) hleft, htask₀.2 resp⟩
    | answers _ htask' _ _ | drops htask' _ _ =>
      rw [htask']
      exact ⟨(fun hno => by cases hno), left, hleft, trivial⟩
    | serves htask htask' _ _ =>
      rw [htask] at htask₀
      rw [htask']
      exact ⟨(fun hno => by cases hno), left, hleft, htask₀⟩
    | @delivers call since reply k htask htask' _ _ =>
      rw [htask] at htask₀
      rw [htask']
      exact ⟨(fun hno => by cases hno), left, hleft, htask₀ reply⟩
  -- a request to S3 is paid from what is left
  · rw [htask, Task.AtMost, Prog.AtMost.act_iff] at htask₀
    obtain ⟨hprice, hk⟩ := htask₀
    have hprice' : tariff.price call ≤ left := hprice
    rw [htask', hspent]
    exact ⟨(fun hno => by cases hno), left - tariff.price call, by omega, hk⟩

/-- **The bill.** Under any tariff, the operations a request has asked of S3 cost no
more than a look and a fetch if it reads, a look and one upload of its body if it
writes, and nothing if it is refused. With the attempts its client makes at most
for each of them it is no more than that many times as much. -/
theorem spent_le_budget (tariff : Tariff) {ok : World → Label → Prop}
    {objects : Hash → Option Bytes} {ls : List Label}
    (hrun : Run (World.step env) ok (init objects) ls w) (r : ReqId) :
    w.spent tariff r ≤ tariff.budget (env.role r) (env.body r) ∧
      ∀ (config : AwsStorageConfig) (region : String) (sent : List Nat),
        (∀ n ∈ sent, n ≤ (config.client region).maxAttempts) →
        w.billed tariff sent r ≤
          (config.client region).maxAttempts * tariff.budget (env.role r) (env.body r) := by
  have hw : Afford tariff env w := hrun.invariant (fun _ _ _ hw _ h => hw.step h) afford_init
  obtain ⟨-, left, hleft, -⟩ := hw r
  have hspent := Nat.le_trans (Nat.le_add_right _ _) hleft
  refine ⟨hspent, ?_⟩
  intro config region sent hsent
  exact Nat.le_trans (billed_le hsent) (Nat.mul_le_mul_left _ hspent)

private def oneGet : Env := exampleEnv []

/-- A GET that looks, and whose client goes away before S3 has answered. -/
def abandonedLook : List Label := [.arrive 0, .run 0, .run 0, .run 0, .run 0, .cancel 0]

/-- At a price of 3 for a look and 5 for a fetch. -/
def examplePrices : Tariff := ⟨3, 5, fun _ => 0, 0, fun _ => 0, 0, 0⟩

omit [RustChar] in
/-- The look has been sent three times when its client goes away. -/
theorem abandonedLook_spent :
    ∃ w, Run (@World.step asciiChars oneGet) (fun _ _ => true = true) (init fun _ => none)
        abandonedLook w ∧ w.spent examplePrices 0 = 3 ∧ w.spent examplePrices 0 ≤ 3 + 5 ∧
      w.billed examplePrices [3] 0 = 9 ∧ w.billed examplePrices [3] 0 ≤ 3 * (3 + 5) := by
  let _ : RustChar := asciiChars
  obtain ⟨w, hrun, hspent, hbilled⟩ : ∃ w, Run (World.step oneGet) (fun _ _ => true = true)
      (init fun _ => none) abandonedLook w ∧ w.spent examplePrices 0 = 3 ∧
      w.billed examplePrices [3] 0 = 9 :=
    exists_run_of_exec (fun _ _ h => h) (show (exec _ (fun _ _ => true) _ _).any _ = true by decide)
  have hrole : oneGet.role 0 = .reader "abc" := Env.gets_iff.mp (Env.gets_example rfl)
  obtain ⟨hspend, hbill⟩ := spent_le_budget examplePrices hrun 0
  rw [hrole] at hspend hbill
  let config : AwsStorageConfig := ⟨none, none, none, none, "cache", none, 30⟩
  exact ⟨w, hrun, hspent, hspend, hbilled, hbill config "eu-central-1" [3] (by decide)⟩

end World

end NxCacheServer.System
