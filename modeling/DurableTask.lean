import DurableTask.Guarantees.Failures
import DurableTask.Runtime.Orchestrators
import DurableTask.Queues.Rendezvous
import DurableTask.Guarantees.Observation
import DurableTask.Guarantees.Numbering
import DurableTask.Guarantees.Reporting
import DurableTask.Guarantees.Results
import DurableTask.Guarantees.Signals
import DurableTask.Guarantees.Progress
import DurableTask.Guarantees.Scheduling
import DurableTask.Guarantees.Outcomes
import DurableTask.Guarantees.Finality
import DurableTask.Guarantees.Absence
import DurableTask.Invariants.Queued
import DurableTask.Guarantees.Abandonment
import DurableTask.Worker.Activities
import DurableTask.Worker.Loop
import DurableTask.Guarantees.Answers
import DurableTask.Guarantees.Episodes
import DurableTask.Executor.Agreement
import DurableTask.Executor.Senders
import DurableTask.Guarantees.Determinism
import DurableTask.Guarantees.Acknowledgements
import DurableTask.Guarantees.Maps
import DurableTask.Interaction.JoinAll
import DurableTask.Runtime.Joined
import DurableTask.Guarantees.Blocking
import DurableTask.Guarantees.Gathering
import DurableTask.Guarantees.FanIn
import DurableTask.Protocol.Summary
import DurableTask.Guarantees.Summaries
import DurableTask.Telemetry.TraceContext
import DurableTask.Guarantees.Tracing
import DurableTask.Guarantees.Filtering
import DurableTask.Guarantees.Inputs
import DurableTask.Guarantees.Queueing
import DurableTask.Guarantees.Payloads
import DurableTask.Interaction.Patience
import DurableTask.Runtime.Patient
import DurableTask.Invariants.Resting
import DurableTask.Guarantees.Redelivery
import DurableTask.Guarantees.Durability
import DurableTask.Guarantees.Answering
import DurableTask.Guarantees.Remote
import DurableTask.Guarantees.EndToEnd
import DurableTask.Guarantees.Restarting
import DurableTask.Guarantees.Finishing
import DurableTask.Guarantees.Distribution
import DurableTask.Guarantees.Configuration
