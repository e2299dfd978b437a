import ThreadMessaging.SpScSequential
import ThreadMessaging.SpScStable
import ThreadMessaging.MessageQueue
import ThreadMessaging.Daemon
import ThreadMessaging.WorkerStopped
import ThreadMessaging.WaitFor
import ThreadMessaging.ManagerStop
import ThreadMessaging.ManagerFresh
import ThreadMessaging.ManagerObserver
import ThreadMessaging.StopWakes
import ThreadMessaging.ChainFlow
import ThreadMessaging.ChainQueues
import ThreadMessaging.ManagerRegistry
import ThreadMessaging.StopTimer
import ThreadMessaging.ThreadSafeQueue
import ThreadMessaging.ObserverPause
import ThreadMessaging.ChainObserver
import ThreadMessaging.Delivery
import ThreadMessaging.QueueHistories
import ThreadMessaging.SpScDrain
import ThreadMessaging.ChainCommands
import ThreadMessaging.ChainPayloads
import ThreadMessaging.ChainDrain
import ThreadMessaging.ChainStopAll
import ThreadMessaging.ManagerStopped
import ThreadMessaging.ProgramCutOff
