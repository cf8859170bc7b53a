-- SUMMARY: Traces of takes and releases of a mutex, and what it means that they balance.
import LidarCar.Kernel.Ipc

/-!
# Balanced use of a mutex

A mutex is used in balance if a thread that got it gives it back before it takes
it again, and no thread releases what it does not have.
-/

namespace Kernel

inductive MutexCall where
  | take
  | release
  deriving DecidableEq, Repr

/-- A thread has called a function on the mutex, with this result. -/
structure MutexEvent (θ : Type*) where
  thread : θ
  call : MutexCall
  result : Err
  deriving DecidableEq, Repr

variable {θ : Type*}

/-- Each successful take is followed by a successful release by the same thread
before that thread takes again. -/
def HandsBack (trace : List (MutexEvent θ)) : Prop :=
  ∀ t e before between after,
    trace = before ++ ⟨t, .take, .eok⟩ :: between ++ ⟨t, .take, e⟩ :: after →
      ⟨t, .release, .eok⟩ ∈ between

/-- Every release succeeds. -/
def ReleasesSucceed (trace : List (MutexEvent θ)) : Prop :=
  ∀ e ∈ trace, e.call = .release → e.result = .eok

/-- A trace with at most one take hands nothing back too late. -/
theorem handsBack_of_length_le {trace : List (MutexEvent θ)} (h : trace.length ≤ 1) :
    HandsBack trace := by
  intro t e before between after heq
  have hlen := congrArg List.length heq
  simp only [List.length_append, List.length_cons] at hlen
  omega

end Kernel
