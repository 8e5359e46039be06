import EventBus.Transition.Handshake
import EventBus.LibZmq.Publisher
import EventBus.LibZmq.Distribution
import EventBus.LibZmq.Fq
import EventBus.LibZmq.Subscriber
import EventBus.LibZmq.Collection
import EventBus.LibZmq.Proxy
import EventBus.LibZmq.Forwarding
import EventBus.LibZmq.PipeOwner
import EventBus.LibZmq.Pipes
import EventBus.LibZmq.Dist
import EventBus.LibZmq.PipeFlow
import EventBus.LibZmq.PipeMessages
import EventBus.LibZmq.PipeTermination
import EventBus.LibZmq.PipeProtocol
import EventBus.LibZmq.Pipe
import EventBus.LibZmq.YPipe
import EventBus.Bus.Refinement
import EventBus.LibZmq.XPub
import EventBus.LibZmq.XSub
import EventBus.LibZmq.Mtrie
import EventBus.Table.PrefixTree
import EventBus.LibZmq.Trie
import EventBus.Table.IndexedArray
import EventBus.Table.Window
import EventBus.Client.Dispatch
import EventBus.Bus.Safety
import EventBus.Client.Subscriptions
import EventBus.Client.Reentrant
import EventBus.Center.Lives
import EventBus.Thread.Lifetime
import EventBus.Transition.Run
import EventBus.Transition.Relay
import EventBus.MZmq.Atomic
import EventBus.MZmq.Boundary
import EventBus.Client.Failures
import EventBus.MZmq.Strings
import EventBus.MZmq.Outcomes
import EventBus.MZmq.RecvAll
import EventBus.Target.Basic
import EventBus.Target.Unsubscribe
import EventBus.Target.NullClient
import EventBus.Client.AtMostOnce
import EventBus.Bus.Tables
import EventBus.Bus.Delivery
import EventBus.Thread.Control
import EventBus.Singleton.Instance
import EventBus.Target.Report
import EventBus.Thread.Identity
