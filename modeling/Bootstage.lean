import Bootstage.Main
import Bootstage.Proofs.BootEnvironment.Reset
import Bootstage.Proofs.Tree.Ways
import Bootstage.Proofs.Tree.Writing
import Bootstage.Proofs.Tree.Contents
import Bootstage.Proofs.BootEnvironment.Filling
import Bootstage.Proofs.Workbench.Launching
import Bootstage.Proofs.Workbench.Asking
import Bootstage.Proofs.Workbench.Booting
import Bootstage.Proofs.BootEnvironment.Forgetting
import Bootstage.Proofs.Tree.Growing
import Bootstage.Proofs.Tree.Recreation
import Bootstage.Proofs.BootEnvironment.Retrying
import Bootstage.Proofs.Workbench.Relaunching
import Bootstage.Proofs.BootEnvironment.Leftovers
import Bootstage.Proofs.Workbench.Building
import Bootstage.Proofs.Workbench.Accounting
import Bootstage.Proofs.Workbench.Running
import Bootstage.Proofs.Tree.Placing
import Bootstage.Proofs.BootEnvironment.Framing
import Bootstage.Proofs.Workbench.Confining
import Bootstage.Proofs.Tree.Passing
import Bootstage.Proofs.Tree.Removing
import Bootstage.Proofs.BootEnvironment.Sparing
import Bootstage.Proofs.Workbench.Protecting
import Bootstage.Proofs.Workbench.Delivering
import Bootstage.Proofs.BootEnvironment.Carrying
import Bootstage.Proofs.Workbench.Handing
import Bootstage.Proofs.Tree.Arriving
import Bootstage.Proofs.Launch.Drives
import Bootstage.Proofs.Machine.Speaking
import Bootstage.Proofs.Workbench.Sessions
import Bootstage.Proofs.Tree.Joining
import Bootstage.Proofs.Config.Loading
import Bootstage.Proofs.BootEnvironment.Anchored
import Bootstage.Proofs.Workbench.Agreeing
import Bootstage.Proofs.CommandLine.Sides
import Bootstage.Proofs.CommandLine.Reading
import Bootstage.Proofs.CommandLine.Accepting
import Bootstage.Proofs.CommandLine.Helping
import Bootstage.Proofs.Program.Runs
import Bootstage.Proofs.BootEnvironment.Overlapping
import Bootstage.Proofs.BootEnvironment.Blaming
import Bootstage.Proofs.Config.Searching
import Bootstage.Proofs.Config.Mentioning
import Bootstage.Proofs.Config.Settling
import Bootstage.Proofs.BootEnvironment.Recovering
import Bootstage.Proofs.Launch.Composing
import Bootstage.Proofs.SearchPath.Prefixing
import Bootstage.Proofs.Workbench.Telling
import Bootstage.Proofs.Workbench.Reordering
import Bootstage.Proofs.Programs.Requesting
import Bootstage.Proofs.Workbench.Granting
import Bootstage.Proofs.CommandLine.Moving
import Bootstage.Proofs.Program.Exiting
import Bootstage.Proofs.Architecture.Naming
