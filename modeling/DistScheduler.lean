import DistScheduler.Go.Strings
import DistScheduler.Go.Sort
import DistScheduler.Membership.Cache
import DistScheduler.Membership.SchedulerSet
import DistScheduler.Membership.Topology
import DistScheduler.Membership.Agreement
import DistScheduler.Membership.Informer
import DistScheduler.Aggregator.Evaluator
import DistScheduler.Aggregator.Winner
import DistScheduler.Aggregator.Defects
import DistScheduler.Partition.NodeLabels
import DistScheduler.Partition.Postconditions
import DistScheduler.Partition.KwokNodes
import DistScheduler.Partition.Labeler
import DistScheduler.Leader.WebhookEndpoints
import DistScheduler.Relay.Wire
import DistScheduler.Relay.Streams
import DistScheduler.Relay.Latch
import DistScheduler.Intake.Dispatch
import DistScheduler.Intake.Counter
import DistScheduler.Intake.SchedulerPool
import DistScheduler.Relay.PodName
import DistScheduler.Aggregator.Candidates
import DistScheduler.Permit.DistPermit
import DistScheduler.Load.CreateResources
import DistScheduler.Load.SpawnLoop
import DistScheduler.Load.LeaseFlood
