import SwarmHost.Overseer.Links
import SwarmHost.Network.Cache
import SwarmHost.Context.Deferred
import SwarmHost.Context.Announcements
import SwarmHost.Notifications.CloseRequests
import SwarmHost.Notifications.Timers
import SwarmHost.Notifications.Announced
import SwarmHost.Notifications.Alternation
import SwarmHost.Notifications.Joint
import SwarmHost.Peerset.Admission
import SwarmHost.Filter.Reconnects
import SwarmHost.EndToEnd.Tables
import SwarmHost.Overseer.Creation
import SwarmHost.Concurrency.Liveness
import SwarmHost.Notifications.Answers
import SwarmHost.Filter.Failures
import SwarmHost.Context.Peering
import SwarmHost.Overseer.Isolation
import SwarmHost.Relay.Order
import SwarmHost.Relay.Installation
import SwarmHost.Relay.Registration
import SwarmHost.Relay.Protocols
import SwarmHost.EndToEnd.BusyFlags
import SwarmHost.Filter.Forwarding
import SwarmHost.Peerset.ReservedPeers
import SwarmHost.EndToEnd.Connections
import SwarmHost.Context.Relaying
import SwarmHost.Heuristics.Dashboard
import SwarmHost.RequestResponses.Channels
import SwarmHost.Notifications.Sending
