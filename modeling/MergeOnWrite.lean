import MergeOnWrite.Proofs.Calc.Abandonment
import MergeOnWrite.Proofs.Calc.FirstError
import MergeOnWrite.Proofs.Calc.LiveRows
import MergeOnWrite.Proofs.Key.Space
import MergeOnWrite.Proofs.Lock.Loads
import MergeOnWrite.Proofs.RowSet.Truncation
import MergeOnWrite.Proofs.Service.Atomicity
import MergeOnWrite.Proofs.Service.Integrity
import MergeOnWrite.Proofs.Service.Lease
import MergeOnWrite.Proofs.Service.Outcome
import MergeOnWrite.Proofs.Simulation.Admission
import MergeOnWrite.Proofs.Simulation.Refinement
import MergeOnWrite.Proofs.Simulation.Replays
import MergeOnWrite.Proofs.Simulation.Transparency
import MergeOnWrite.Proofs.Store.Serial
import MergeOnWrite.Records
import MergeOnWrite.Simulation.BarrierSession
import MergeOnWrite.Simulation.BitmapSession
import MergeOnWrite.Simulation.CallSession
import MergeOnWrite.Simulation.ExecutorSession
import MergeOnWrite.Simulation.Fixture
import MergeOnWrite.Simulation.LockSession
import MergeOnWrite.Simulation.ServiceSession
import MergeOnWrite.Simulation.StoreSession
import MergeOnWrite.Proofs.Store.Spans
import MergeOnWrite.Proofs.Store.Conflicts
import MergeOnWrite.Proofs.Calc.Closing
import MergeOnWrite.Proofs.Simulation.Barriers
import MergeOnWrite.Proofs.DeleteBitmap.Join
import MergeOnWrite.Proofs.Calc.Inquiry
import MergeOnWrite.Proofs.Calc.Recurring
import MergeOnWrite.Proofs.Calc.Crossing
import MergeOnWrite.Proofs.Service.TooOld
import MergeOnWrite.Proofs.Key.Order
import MergeOnWrite.Proofs.Lock.AllowList
import MergeOnWrite.Proofs.Simulation.Tablets
import MergeOnWrite.Proofs.Key.Decoded
import MergeOnWrite.Proofs.Service.DefaultLease
import MergeOnWrite.Proofs.Store.Histories
import MergeOnWrite.Proofs.Service.Backoff
import MergeOnWrite.Proofs.Store.Interval
import MergeOnWrite.Proofs.Service.Heeding
