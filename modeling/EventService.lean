import EventService.Guarantees.NoLoss
import EventService.Guarantees.ExactlyOnce
import EventService.Guarantees.RoundTrip
import EventService.Guarantees.Ledger
import EventService.Guarantees.PoisonBound
import EventService.Guarantees.Exclusion
import EventService.Guarantees.Trimming
import EventService.Guarantees.PageWalk
import EventService.Guarantees.FailureClasses
import EventService.Guarantees.Audit
import EventService.Guarantees.DeliveryCounts
import EventService.Guarantees.DeadLetters
import EventService.Guarantees.Validation
import EventService.Guarantees.RateLookup
import EventService.Guarantees.Summaries
import EventService.Guarantees.Listing
import EventService.Guarantees.ExactConversion
import EventService.Guarantees.Amounts
import EventService.Guarantees.Outcomes
import EventService.Guarantees.Batches
import EventService.Guarantees.StaleEntries
import EventService.Guarantees.Shutdown
import EventService.Guarantees.RetryPolicy
import EventService.Guarantees.Refinement
import EventService.Guarantees.Settling
import EventService.Guarantees.Intake
import EventService.Guarantees.Recovery
import EventService.Guarantees.Stopping
import EventService.Guarantees.Leasing
import EventService.Guarantees.Sessions
import EventService.Guarantees.Startup
import EventService.Guarantees.BatchPosting
import EventService.Guarantees.Reporting
import EventService.Model.Metrics
import EventService.Run.Metering
import EventService.Guarantees.Counters
import EventService.Guarantees.Waiting
import EventService.Guarantees.Promises
