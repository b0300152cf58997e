import Mathlib.Logic.Function.Basic

/-!
# A write-once map

A partial map in which a bound key is never bound again: `put` leaves it alone,
and only `delete` unbinds it.

That is what a content-addressed store promises its clients. Which request is which
operation, and who may use it, is said in `NxCacheServer.System.WriteOnceMap`.
-/

namespace NxCacheServer.Lib

/-- A map in which a key is bound once and never again. -/
abbrev WriteOnce (κ ν : Type) : Type := κ → Option ν

namespace WriteOnce

variable {κ ν : Type} [DecidableEq κ] {map : WriteOnce κ ν} {key key' : κ} {value : ν}

/-- Bind `key` unless it is bound. -/
def put (map : WriteOnce κ ν) (key : κ) (value : ν) : WriteOnce κ ν :=
  if (map key).isSome then map else Function.update map key (some value)

/-- Unbind `key`. -/
def delete (map : WriteOnce κ ν) (key : κ) : WriteOnce κ ν := Function.update map key none

/-- The first write of a key binds it. -/
theorem put_of_unbound (h : map key = none) :
    map.put key value = Function.update map key (some value) := by
  rw [put, h]
  rfl

/-- What is unbound after a `put` was unbound before, and is not its key. -/
theorem put_eq_none : map.put key value key' = none ↔ map key' = none ∧ key' ≠ key := by
  unfold put
  split
  next hbound =>
    constructor
    · intro hnone
      refine ⟨hnone, ?_⟩
      intro heq
      rw [heq] at hnone
      rw [hnone] at hbound
      cases hbound
    · exact And.left
  next => by_cases heq : key' = key <;> simp [heq]

/-- What is unbound stays so when more is unbound. -/
theorem delete_eq_none (h : map key' = none) : map.delete key key' = none := by
  rw [delete, Function.update_apply]
  split
  · rfl
  · exact h

end WriteOnce

end NxCacheServer.Lib
