-- SUMMARY: The list of the threads suspended on an IPC object.
import Mathlib.Data.List.Nodup
import Mathlib.Data.List.Sort

/-!
# Suspended threads

Every object of `ipc.c` has a list of the threads that wait for it, either in the
order of their arrival or by their priority.
-/

namespace Kernel

variable {θ : Type*}

/-- `RT_IPC_FLAG_FIFO` and `RT_IPC_FLAG_PRIO`. -/
inductive IpcFlag where
  | fifo
  | prio
  deriving DecidableEq, Repr

/-- `rt_ipc_list_suspend`: the thread goes to the end, or before the first thread
of a larger priority number. -/
def ipcListSuspend (flag : IpcFlag) (currentPriority : θ → UInt8) (list : List θ) (thread : θ) :
    List θ :=
  match flag with
  | .fifo => list ++ [thread]
  | .prio => list.orderedInsert (fun a b => currentPriority a < currentPriority b) thread

variable (flag : IpcFlag) (currentPriority : θ → UInt8) (list : List θ) (thread : θ)

theorem ipcListSuspend_perm :
    (ipcListSuspend flag currentPriority list thread).Perm (thread :: list) := by
  cases flag with
  | fifo => exact List.perm_append_singleton thread list
  | prio => exact List.perm_orderedInsert _ thread list

theorem mem_ipcListSuspend {t : θ} :
    t ∈ ipcListSuspend flag currentPriority list thread ↔ t = thread ∨ t ∈ list := by
  rw [(ipcListSuspend_perm flag currentPriority list thread).mem_iff, List.mem_cons]

theorem nodup_ipcListSuspend (hnot : thread ∉ list) (h : list.Nodup) :
    (ipcListSuspend flag currentPriority list thread).Nodup :=
  (ipcListSuspend_perm flag currentPriority list thread).nodup_iff.mpr
    (List.nodup_cons.mpr ⟨hnot, h⟩)

end Kernel
