import KaspaScript.Meaning.Threshold
import KaspaScript.Meaning.Timelocks
import KaspaScript.Meaning.Truth

namespace KaspaScript

open Library (InOrder joinAll run_append)

namespace Context

variable (cx : Context)

end Context

section

variable {Γ : Declared} {cx : Context}

end

end KaspaScript
