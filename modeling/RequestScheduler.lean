import RequestScheduler.Config.Reader
import RequestScheduler.Config.Script
import RequestScheduler.Config.Writer
import RequestScheduler.Indicator.Script
import RequestScheduler.Invocation
import RequestScheduler.Latch.Script
import RequestScheduler.Manager.Timed
import RequestScheduler.Proofs.Alongside
import RequestScheduler.Proofs.Assignment
import RequestScheduler.Proofs.Awake
import RequestScheduler.Proofs.Bulk
import RequestScheduler.Proofs.Census
import RequestScheduler.Proofs.Departure
import RequestScheduler.Proofs.Discard
import RequestScheduler.Proofs.Firing
import RequestScheduler.Proofs.Lifecycle
import RequestScheduler.Proofs.Loss
import RequestScheduler.Proofs.Making
import RequestScheduler.Proofs.Overlap
import RequestScheduler.Proofs.Report
import RequestScheduler.Proofs.Sealing
import RequestScheduler.Proofs.Settling
import RequestScheduler.Proofs.Vacancy
import RequestScheduler.Proofs.Verdict
import RequestScheduler.Proofs.Victims
import RequestScheduler.Proofs.Winner
import RequestScheduler.Proofs.Written
import RequestScheduler.Request.Script
import RequestScheduler.Slot.Script
