import Attitude.Proofs.AdaptiveNoise
import Attitude.Proofs.Agreement
import Attitude.Proofs.Averages
import Attitude.Proofs.Binary32.Truncation
import Attitude.Proofs.Calls
import Attitude.Proofs.Clock
import Attitude.Proofs.Covariance
import Attitude.Proofs.Defaults
import Attitude.Proofs.Detection
import Attitude.Proofs.Deviation
import Attitude.Proofs.Exact.Inverse
import Attitude.Proofs.FieldReports
import Attitude.Proofs.FixedRate
import Attitude.Proofs.Gaps
import Attitude.Proofs.Inert
import Attitude.Proofs.Information
import Attitude.Proofs.Intervals
import Attitude.Proofs.InverseRange
import Attitude.Proofs.LevelAlignment
import Attitude.Proofs.Lifecycle
import Attitude.Proofs.Linearization
import Attitude.Proofs.Loading
import Attitude.Proofs.ModerateSamples
import Attitude.Proofs.MountingFrames
import Attitude.Proofs.ParallelReadings
import Attitude.Proofs.Propagation
import Attitude.Proofs.Publications
import Attitude.Proofs.Refusal
import Attitude.Proofs.Registry
import Attitude.Proofs.Restart
import Attitude.Proofs.Samples
import Attitude.Proofs.Schedule
import Attitude.Proofs.SenderValues
import Attitude.Proofs.Senders
import Attitude.Proofs.Symmetry
import Attitude.Proofs.Threshold
import Attitude.Proofs.UnitAttitude
import Attitude.Proofs.UnusableForces
import Attitude.Proofs.Validity
import Attitude.Proofs.WindowCounts
import Attitude.Session.OfParams
