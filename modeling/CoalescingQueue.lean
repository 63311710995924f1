import CoalescingQueue.Console.Program
import CoalescingQueue.Identifier
import CoalescingQueue.Log.Span
import CoalescingQueue.Main
import CoalescingQueue.Metrics
import CoalescingQueue.Proofs.Abandonment
import CoalescingQueue.Proofs.Aggregation
import CoalescingQueue.Proofs.Backpressure
import CoalescingQueue.Proofs.Barrier
import CoalescingQueue.Proofs.Cancellation
import CoalescingQueue.Proofs.Collapse
import CoalescingQueue.Proofs.Configuration
import CoalescingQueue.Proofs.Conservation
import CoalescingQueue.Proofs.Desertion
import CoalescingQueue.Proofs.Detour
import CoalescingQueue.Proofs.Failures
import CoalescingQueue.Proofs.Grammar
import CoalescingQueue.Proofs.Indifference
import CoalescingQueue.Proofs.Metering
import CoalescingQueue.Proofs.Ranks
import CoalescingQueue.Proofs.Refusals
import CoalescingQueue.Proofs.Rounds
import CoalescingQueue.Proofs.Sessions
import CoalescingQueue.Proofs.Statistics
import CoalescingQueue.Proofs.Survival
import CoalescingQueue.Proofs.Transitions
import CoalescingQueue.Scenario
