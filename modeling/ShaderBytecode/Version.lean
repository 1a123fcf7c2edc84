/-!
# The version of the library
-/

namespace ShaderBytecode

def version : String := "0.1.0"

end ShaderBytecode
