import DyadicFourier.Proofs.Context.Allocation
import DyadicFourier.Proofs.Context.Capacity
import DyadicFourier.Proofs.Context.Factoring
import DyadicFourier.Proofs.Context.Opposite
import DyadicFourier.Proofs.Context.QuarterRow
import DyadicFourier.Proofs.Entry.Creation
import DyadicFourier.Proofs.Entry.Violations
import DyadicFourier.Proofs.Exact.RoundTrip
