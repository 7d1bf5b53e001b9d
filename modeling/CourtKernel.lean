import CourtKernel.Hosted.Steps
import CourtKernel.Hosted.Revocation
import CourtKernel.Hosted.Authority
import CourtKernel.Hosted.Fifo
import CourtKernel.Hosted.Agreement
import CourtKernel.Hosted.Isolation
import CourtKernel.Hosted.Audit
import CourtKernel.Hosted.Attenuation
import CourtKernel.Hosted.Failure
import CourtKernel.Hosted.Consistency
import CourtKernel.Lib.Fifo
import CourtKernel.Linux.Spsc
import CourtKernel.Linux.Uninterrupted
import CourtKernel.Linux.Accesses
import CourtKernel.Linux.Wraparound
import CourtKernel.Linux.Lockstep
import CourtKernel.Linux.Policy
import CourtKernel.Linux.Disclosure
import CourtKernel.Linux.ReturnedCap
import CourtKernel.Linux.Choices
import CourtKernel.Linux.Phases
import CourtKernel.Lib.Wp
import CourtKernel.Lib.Radix
import CourtKernel.RootCourt.Mm
import CourtKernel.RootCourt.Regions
import CourtKernel.RootCourt.Consistent
import CourtKernel.RootCourt.Sharing
import CourtKernel.RootCourt.MapRange
import CourtKernel.RootCourt.Visible
import CourtKernel.RootCourt.Careful
import CourtKernel.RootCourt.Demo
import CourtKernel.RootCourt.ObjectRuns
import CourtKernel.RootCourt.Interrupts
import CourtKernel.RootCourt.Access
import CourtKernel.RootCourt.Kmain
import CourtKernel.RootCourt.Enter
import CourtKernel.RootCourt.EnterRuns
import CourtKernel.RootCourt.EnterSetup
import CourtKernel.RootCourt.Boot
