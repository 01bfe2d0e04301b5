import Hpack.Feed

namespace Hpack
namespace CommandLine

-- What happens when a serial device is opened, and what it delivers then. It may fail to open, or
-- the settings may be refused.
inductive Device
  | ready (chunks : List Chunk)
  | failing (message : String)
  | refusing (message : String)
  deriving DecidableEq

-- A device that has been opened.
structure Connection where
  feed   : Feed
  closed : Bool := false
  deriving DecidableEq

-- Uses a connection and closes it, whether or not the use fails.
def Connection.within {α : Type} (act : EStateM Fault Feed α) : EStateM Fault Connection α :=
  fun c =>
    match act c.feed with
    | .ok a feed        => .ok a { feed, closed := true }
    | .error fault feed => .error fault { feed, closed := true }

-- What a command has done with a device.
structure Device.Usage where
  name     : String
  baudrate : Option Int
  timeout  : Option Float
  requests : Nat
  closed   : Bool

end CommandLine
end Hpack
