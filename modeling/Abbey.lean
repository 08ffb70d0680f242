import Abbey.Manager.Adoption
import Abbey.Manager.Shutdown
import Abbey.Manager.Convergence
import Abbey.Manager.Receipts
import Abbey.RunControl.Session
import Abbey.Recovery.Reopen
import Abbey.Run.Mirror
import Abbey.Mirror.Atomicity
import Abbey.Learning.Promotion
import Abbey.Learning.Collected
import Abbey.Learning.Kept
import Abbey.Learning.Gate
import Abbey.Approval.History
import Abbey.Memory.Interchange
import Abbey.Provider.Breaker
import Abbey.Reward.Exactness
import Abbey.Voice.Withdrawal
import Abbey.Authority.Restarts
import Abbey.Train.Reversible
import Abbey.Models.Truth
import Abbey.Continuity.Saves
import Abbey.Moderation.Immutable
import Abbey.Recall.Refinement
import Abbey.Stream.Answer
import Abbey.Work.Served
import Abbey.Desk.Complete
import Abbey.Stream.Pass
import Abbey.Decode.Repeats
import Abbey.Host.Serve
import Abbey.Host.Answers
import Abbey.Train.Identity
import Abbey.Prompt.Fit
import Abbey.Consent.Reconciled
import Abbey.Tui.Refines
import Abbey.Improve.Nominated
import Abbey.Run.Transcript
import Abbey.Daemon.Framing
import Abbey.Schedule.Cron
