import ProcessNetwork.LocalBlocking
import ProcessNetwork.LocalShutdown
import ProcessNetwork.RemoteStream
import ProcessNetwork.NeverShrinks
import ProcessNetwork.RemoteClock
import ProcessNetwork.RemoteHandshake
import ProcessNetwork.PacketStream
import ProcessNetwork.PartialTransfer
import ProcessNetwork.PacketBuffer
import ProcessNetwork.PoolWaiters
import ProcessNetwork.KernelNodes
import ProcessNetwork.LiveNodes
import ProcessNetwork.Base64Codec
import ProcessNetwork.VariantCPNLoader
import ProcessNetwork.AttributeMessages
import ProcessNetwork.CachedVariants
import ProcessNetwork.CircularChannels
import ProcessNetwork.MirroredLayout
import ProcessNetwork.MessageFraming
import ProcessNetwork.KernelLoop
import ProcessNetwork.CircularIterator
import ProcessNetwork.IdentifierRecycler
import ProcessNetwork.IntrusiveRing
import ProcessNetwork.SieveChain
import ProcessNetwork.PrimeSieveSource
import ProcessNetwork.NodeListReading
import ProcessNetwork.Replicas
import ProcessNetwork.PathUtils
import ProcessNetwork.QueueRefusal
import ProcessNetwork.RemoteRegistry
import ProcessNetwork.RemoteWaits
import ProcessNetwork.D4RComplete
import ProcessNetwork.Determinacy
import ProcessNetwork.ForkJoin
import ProcessNetwork.NetworkDeadlock
