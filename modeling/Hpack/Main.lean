import Hpack.CommandLine.Run

open Hpack CommandLine

-- Real serial devices are out of reach.
def main (arguments : List String) : IO UInt32 := do
  let report := run arguments (.failing "no device")
  IO.print report.stdout
  IO.eprint report.stderr
  match report.status with
  | .refused complaint => IO.eprintln ("error: " ++ complaint.message)
  | _                  => pure ()
  return UInt32.ofNat report.status.code
