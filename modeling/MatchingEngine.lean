import MatchingEngine.Cpp.IdMap
import MatchingEngine.Cpp.Pending
import MatchingEngine.Rust.Conservation
import MatchingEngine.Cpp.AddSteps
import MatchingEngine.Cpp.CancelSteps
import MatchingEngine.Cpp.Deadlock
import MatchingEngine.Cpp.LockWalk
import MatchingEngine.Cpp.Received
import MatchingEngine.Cpp.Sentinel
import MatchingEngine.Cpp.Service
import MatchingEngine.Cpp.Turns
import MatchingEngine.Go.Book
import MatchingEngine.Go.Carried
import MatchingEngine.Go.Received
import MatchingEngine.Go.Remainder
import MatchingEngine.Go.Served
import MatchingEngine.Handover
import MatchingEngine.Reach
import MatchingEngine.Rust.Accounting
import MatchingEngine.Rust.Exit
import MatchingEngine.Timestamps
import MatchingEngine.Go.Ownership
import MatchingEngine.Go.RWLock
import MatchingEngine.HashMaps
import MatchingEngine.Go.Input
import MatchingEngine.OutputLines
import MatchingEngine.Cpp.Serial
import MatchingEngine.Go.Commits
import MatchingEngine.Cpp.Fitting
import MatchingEngine.Cpp.Verdict
import MatchingEngine.Cpp.Script
import MatchingEngine.Cpp.Validation
import MatchingEngine.Cpp.Accepted
import MatchingEngine.Go.Stuck
import MatchingEngine.Lib.Pending
