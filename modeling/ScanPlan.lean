import ScanPlan.Job
import ScanPlan.Proofs.BoundaryInspection
import ScanPlan.Proofs.CursorClosing
import ScanPlan.Proofs.EmptySplits
import ScanPlan.Proofs.LastOwner
import ScanPlan.Proofs.LocalityHint
import ScanPlan.Proofs.MovedKeyOrder
import ScanPlan.Proofs.ParameterRuns
import ScanPlan.Proofs.PlanFailures
import ScanPlan.Proofs.PooledRows
import ScanPlan.Proofs.PropertyReading
import ScanPlan.Proofs.QueryHandOff
import ScanPlan.Proofs.RowLoops
import ScanPlan.Proofs.ScanAgreement
import ScanPlan.Proofs.SplitOutcome
import ScanPlan.Proofs.SplitRecords
import ScanPlan.Proofs.SplitTiling
import ScanPlan.Proofs.WindowArithmetic
import ScanPlan.Store.Frame
