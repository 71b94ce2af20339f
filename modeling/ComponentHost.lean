import ComponentHost.Main
import ComponentHost.Boundary.Describe
import ComponentHost.Session.Basic
import ComponentHost.Session.Step
import ComponentHost.Proofs.Boundary.Presence
import ComponentHost.Proofs.Boundary.Unused
import ComponentHost.Proofs.Compiler.Report
import ComponentHost.Proofs.Dependency.Causes
import ComponentHost.Proofs.Dependency.Resolution
import ComponentHost.Proofs.Dependency.Returns
import ComponentHost.Proofs.Dependency.Sharing
import ComponentHost.Proofs.Session.Liveness
import ComponentHost.Proofs.Session.Refusal
import ComponentHost.Proofs.Session.Callback
import ComponentHost.Proofs.Session.Nesting
import ComponentHost.Proofs.Session.Separation
import ComponentHost.Proofs.Session.Cancellation
import ComponentHost.Proofs.Session.Limits
import ComponentHost.Proofs.Session.Contracts
import ComponentHost.Proofs.Session.Failures
import ComponentHost.Proofs.Session.Forwarding
import ComponentHost.Proofs.Executor.Teardown
import ComponentHost.Proofs.Executor.Clients
import ComponentHost.Proofs.Monitor.Schedule
import ComponentHost.Proofs.Compiler.Locations
import ComponentHost.Proofs.Reference.AbsolutePaths
import ComponentHost.Proofs.Reference.Batches
import ComponentHost.Proofs.Session.Interruption
import ComponentHost.Proofs.Session.Independence
import ComponentHost.Proofs.Settings.Delays
import ComponentHost.Proofs.Diagnostic.RoundTrip
