import Ptask.OneN.Places
import Ptask.OneN.Waits
import Ptask.OneN.Life
import Ptask.OneN.Ticks
import Ptask.OneN.Fifo
import Ptask.Context.Start
import Ptask.Create.Failure
import Ptask.Create.Stacks
import Ptask.OneN.FiberqWaits
import Ptask.OneN.Broadcast
import Ptask.OneN.Deadlines
import Ptask.OneN.Channel
import Ptask.OneN.Candidates
import Ptask.OneN.Recycling
import Ptask.OneN.Blockq
import Ptask.OneN.Stream
import Ptask.OneN.ReaderWriter
import Ptask.OneN.Rwlock
import Ptask.OneN.Lateness
import Ptask.OneN.Delivery
import Ptask.OneN.FirstCome
import Ptask.MN.Exit
import Ptask.MN.Saves
import Ptask.Agents.Monitor
import Ptask.Agents.Semaphore
import Ptask.Agents.Signals
import Ptask.CacheLookup
import Ptask.FreeLists
import Ptask.Chain
import Ptask.Context.System
