/-!
# Instances

Powers of numbers and the equality of byte strings come from the core library, also where a module
sees others.
-/

namespace ObjectSpace

attribute [default_instance 20000, scoped instance (high)] instPowNat

attribute [scoped instance (high)] ByteArray.instDecidableEq

end ObjectSpace
