import Ptask.OneN.Step

/-!
# Epoll

The interface of `epoll.h`.
-/

namespace Ptask

def EVENT_BITMASK_EPOLL : EventMask := 1

def EPOLL_TASKDAT_INDEX : Int32 := 0

/-- The wait that `fiber_epoll_wait` makes. -/
def Call.epollWait (timeoutInMs : Int32) : Call :=
  .eventWait EVENT_BITMASK_EPOLL TASK_EVENT_WAIT_ANY (timeoutInMs * 1000)

end Ptask
