import Mathlib.Logic.Basic
import Mathlib.Data.Nat.Notation

/-!
# Recursive mutexes

A mutex is free or owned by one thread, which may have acquired it several times
and has to release it as often.  What a development needs to know of a mutex is
how many times each thread holds it: at most one thread holds it at all, an
acquisition adds one and a release takes one away.
-/

universe u

/-- A mutex; the owner has acquired it `again` times more than once. -/
inductive Mutex (Thread : Type u) where
  | free
  | owned (owner : Thread) (again : ℕ)
deriving DecidableEq

namespace Mutex

variable {Thread : Type u} [DecidableEq Thread]

/-- What a wait of `thread` that succeeds leaves; `none` where it has to wait. -/
def acquire (thread : Thread) : Mutex Thread → Option (Mutex Thread)
  | free => some (owned thread 0)
  | owned owner again => if owner = thread then some (owned owner (again + 1)) else none

/-- A release by `thread`; it fails, and changes nothing, if `thread` is not the owner. -/
def release (thread : Thread) : Mutex Thread → Mutex Thread
  | free => free
  | owned owner 0 => if owner = thread then free else owned owner 0
  | owned owner (again + 1) => if owner = thread then owned owner again else owned owner (again + 1)

/-- The mutex after `thread` has ended. -/
def abandon (thread : Thread) : Mutex Thread → Mutex Thread
  | free => free
  | owned owner again => if owner = thread then free else owned owner again

/-- How many times `thread` has acquired the mutex and not released it. -/
def holds (thread : Thread) : Mutex Thread → ℕ
  | free => 0
  | owned owner again => if owner = thread then again + 1 else 0

@[simp]
theorem holds_free (thread : Thread) : (free : Mutex Thread).holds thread = 0 := rfl

theorem owned_of_holds {mutex : Mutex Thread} {thread : Thread} (held : 0 < mutex.holds thread) :
    ∃ again, mutex = owned thread again := by
  cases mutex with
  | free => cases held
  | owned owner again =>
      simp only [holds] at held
      split at held
      · rename_i same
        exact ⟨again, by rw [same]⟩
      · cases held

theorem eq_of_holds {mutex : Mutex Thread} {one other : Thread} (byOne : 0 < mutex.holds one)
    (byOther : 0 < mutex.holds other) : one = other := by
  cases mutex with
  | free => cases byOne
  | owned owner again =>
      simp only [holds] at byOne byOther
      split at byOne
      · split at byOther
        · simp_all
        · cases byOther
      · cases byOne

theorem holds_eq_zero {mutex : Mutex Thread} {one other : Thread} (byOne : 0 < mutex.holds one)
    (different : other ≠ one) : mutex.holds other = 0 :=
  Nat.eq_zero_of_not_pos fun byOther => different (eq_of_holds byOther byOne)

section Acquire

variable {mutex next : Mutex Thread} {thread other : Thread}

theorem holds_acquire (acquired : mutex.acquire thread = some next) :
    next.holds thread = mutex.holds thread + 1 := by
  cases mutex with
  | free =>
      cases acquired
      simp [holds]
  | owned owner again =>
      simp only [acquire] at acquired
      split at acquired <;> cases acquired
      simp_all [holds]

/-- Where one thread acquires a mutex, no other thread holds it. -/
theorem holds_of_acquire (acquired : mutex.acquire thread = some next)
    (different : other ≠ thread) : mutex.holds other = 0 := by
  cases mutex with
  | free => rfl
  | owned owner again =>
      simp only [acquire] at acquired
      split at acquired
      · simp_all [holds, Ne.symm different]
      · cases acquired

theorem holds_acquire_of_ne (acquired : mutex.acquire thread = some next)
    (different : other ≠ thread) : next.holds other = mutex.holds other := by
  rw [holds_of_acquire acquired different]
  exact holds_eq_zero (by rw [holds_acquire acquired]; omega) different

end Acquire

theorem holds_release (mutex : Mutex Thread) (thread : Thread) :
    (mutex.release thread).holds thread = mutex.holds thread - 1 := by
  rcases mutex with _ | ⟨owner, again⟩
  · rfl
  · by_cases owns : owner = thread
    · cases again <;> simp [release, holds, owns]
    · cases again <;> simp [release, holds, owns]

theorem holds_release_of_ne (mutex : Mutex Thread) {thread other : Thread}
    (different : other ≠ thread) : (mutex.release thread).holds other = mutex.holds other := by
  rcases mutex with _ | ⟨owner, again⟩
  · rfl
  · by_cases owns : owner = thread
    · cases again <;> simp [release, holds, owns, Ne.symm different]
    · cases again <;> simp [release, holds, owns]

theorem holds_abandon (mutex : Mutex Thread) (thread : Thread) :
    (mutex.abandon thread).holds thread = 0 := by
  cases mutex with
  | free => rfl
  | owned owner again =>
      simp only [abandon]
      split <;> simp_all [holds]

theorem holds_abandon_of_ne (mutex : Mutex Thread) {thread other : Thread}
    (different : other ≠ thread) : (mutex.abandon thread).holds other = mutex.holds other := by
  cases mutex with
  | free => rfl
  | owned owner again =>
      simp only [abandon]
      split <;> simp_all [holds, Ne.symm different]

end Mutex
