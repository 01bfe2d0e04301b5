import Hpack.Fault

namespace Hpack

-- Where octets are taken from, one at a time. The state is kept on failure: octets taken before it
-- stay taken.
class Source (σ : Type) where
  pull : EStateM Fault σ UInt8

end Hpack
