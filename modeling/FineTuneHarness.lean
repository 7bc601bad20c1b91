import FineTuneHarness.Safety.MutualExclusion
import FineTuneHarness.Safety.LeaseOwner
import FineTuneHarness.Safety.RefreshReachable
import FineTuneHarness.Safety.OomBudget
import FineTuneHarness.Safety.Accounting
import FineTuneHarness.Safety.DrainVerdict
import FineTuneHarness.Safety.Recovery
import FineTuneHarness.Safety.StatusAgreement
import FineTuneHarness.Safety.Admission
import FineTuneHarness.Safety.SuccessCount
import FineTuneHarness.Safety.DrainStatus
import FineTuneHarness.Safety.TerminalTasks
import FineTuneHarness.Safety.CreateRun
import FineTuneHarness.Safety.DatasetHashes
import FineTuneHarness.Safety.ComparisonAgreement
import FineTuneHarness.Safety.CheckpointConfinement
import FineTuneHarness.Safety.LogSecrets
import FineTuneHarness.Safety.ReclaimBudget
import FineTuneHarness.Safety.StatusAudit
import FineTuneHarness.Safety.Deadline
import FineTuneHarness.Safety.TaskHistory
import FineTuneHarness.Safety.RetryBudgets
import FineTuneHarness.Safety.Pairwise
import FineTuneHarness.Safety.Swapped
import FineTuneHarness.Safety.FullAttempts
import FineTuneHarness.Safety.Approval
import FineTuneHarness.Safety.EarlyStopping
import FineTuneHarness.Evaluation.Acceptance
import FineTuneHarness.Safety.SeedRange
import FineTuneHarness.Safety.ReportCoherence
import FineTuneHarness.Safety.Leaseable
import FineTuneHarness.Safety.ConfigHash
import FineTuneHarness.Safety.MetricsLog
import FineTuneHarness.Database.Twins
import FineTuneHarness.Safety.RunReproducibility
import FineTuneHarness.Safety.ScheduleIndependence
import FineTuneHarness.Safety.DrainOrder
import FineTuneHarness.Safety.Replay
import FineTuneHarness.Safety.Dispatching
import FineTuneHarness.Safety.HookIndependence
import FineTuneHarness.Safety.Sandboxing
import FineTuneHarness.Safety.DrainEnds
import FineTuneHarness.Safety.Integrity
import FineTuneHarness.Cli.Concurrency
