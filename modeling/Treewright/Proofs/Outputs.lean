import Treewright.Proofs.Compilations
set_option autoImplicit false

namespace Treewright

namespace Path

end Path

namespace Compilation

def named (name : String) : List UInt8 :=
  Text.encode ("\x7b\"name\": \"" ++ name ++ "\", \"program\": []\x7d")

end Compilation

end Treewright
