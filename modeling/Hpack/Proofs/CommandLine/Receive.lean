import Hpack.CommandLine.Run
import Hpack.Proofs.CommandLine.Encode
import Hpack.Proofs.Feed

namespace Hpack
namespace CommandLine

-- Command lines which ask for an integer to be read from a device. The octets that may be given as
-- well are not part of what is asked for.
def AsksToReceive (arguments : List String) (name : List Char) (n : Int) : Prop :=
  ∃ verbose baudrate timeout, Invocation.ofTexts (arguments.map String.toList) =
    .ok { verbose, command := .receive name (.whole n) baudrate timeout }

-- A connection that has been used and given back, within the number of requests there may be.
structure Released (name : List Char) (limit : Nat) (usage : Device.Usage) : Prop where
  name     : usage.name = String.ofList name
  requests : usage.requests ≤ limit
  closed   : usage.closed

variable {arguments : List String} {name : List Char} {n : Int} {chunks : List Chunk} {feed : Feed}
  {result : Except Fault Nat} {w : Width} {fault : Fault}

theorem asksToReceive (hn : name ≠ []) (hs : name ≠ ['-', '-'])
    (hw : Numeral.Writable .decimal n) (hex : Option String) :
    AsksToReceive (["decode", "--port=" ++ String.ofList name, "--prefix", Numeral.decimal n] ++
      hex.elim [] (["--", ·])) name n := by
  have hi := Invocation.ofTexts_receive hn hs hw (hex.map String.toList)
  refine ⟨false, some 115200, some 5, ?_⟩
  rw [← hi]
  cases hex <;> simp [Command.receiveTexts, Numeral.decimal]

theorem name_of_asksToReceive (h : AsksToReceive arguments name n) :
    name ≠ [] ∧ name ≠ ['-', '-'] := by
  have ⟨_, _, _, h⟩ := h
  exact Invocation.name_of_ofTexts h

theorem AsksToReceive.writable (h : AsksToReceive arguments name n) :
    Numeral.Writable .decimal n := by
  have ⟨_, _, _, h⟩ := h
  exact Invocation.writable_of_ofTexts h rfl

-- What the program tells of a reading, and how it ends.
def Told (name : List Char) (report : Report) : Except Fault Nat → Prop
  | .ok value =>
    report.status.code = 0 ∧ report.stdout = toString value ++ "\n"
  | .error fault =>
    report.status.code = 1 ∧
      report.stdout = deviceErrorLine (String.ofList name) fault ++ "\n"

-- What using a device comes to that has been opened.
theorem runReceive_of_ok {given : Width.Candidate} {value : Nat} (name : String)
    (baudrate : Option Int) (timeout : Option Float)
    (h : Decoder.read given (Feed.mk chunks 0 0) = .ok value feed) :
    runReceive name given baudrate timeout (.ready chunks) = {
      status := .success
      output := [Numeral.decimal value]
      log    := [.received feed.consumed name]
      device := some { name, baudrate, timeout, requests := feed.requests, closed := true }
    } := by
  have hc : Connection.within (Decoder.read given) { feed := { queue := chunks } } =
      .ok value { feed, closed := true } := by
    simp only [Connection.within, h]
  simp only [runReceive, hc]

theorem runReceive_of_error {given : Width.Candidate} (name : String) (baudrate : Option Int)
    (timeout : Option Float) (h : Decoder.read given (Feed.mk chunks 0 0) = .error fault feed) :
    runReceive name given baudrate timeout (.ready chunks) = {
      status := .failure
      output := [deviceErrorLine name fault]
      log    := Event.ofFault fault
      device := some { name, baudrate, timeout, requests := feed.requests, closed := true }
    } := by
  have hc : Connection.within (Decoder.read given) { feed := { queue := chunks } } =
      .error fault { feed, closed := true } := by
    simp only [Connection.within, h]
  simp only [runReceive, hc]

-- The device is given back whatever reading from it comes to.
theorem run_of_asksToReceive (h : AsksToReceive arguments name n)
    (hr : Decoder.read (.whole n) (Feed.mk chunks 0 0) = leaving feed result) :
    let report := run arguments (.ready chunks)
    (∃ usage, report.device = some usage ∧ Released name feed.requests usage) ∧
      Told name report result := by
  have ⟨verbose, baudrate, timeout, h⟩ := h
  simp only [run, h, Command.run]
  cases result
  case ok =>
    rw [runReceive_of_ok _ baudrate timeout hr]
    cases verbose <;> exact ⟨⟨_, rfl, rfl, Nat.le_refl _, rfl⟩, rfl, rfl⟩
  case error =>
    rw [runReceive_of_error _ baudrate timeout hr]
    cases verbose <;> exact ⟨⟨_, rfl, rfl, Nat.le_refl _, rfl⟩, rfl, rfl⟩

-- Only where the lack of octets is the problem of the device, its name is told.
theorem deviceErrorLine_lack (name : String) (chunks : List Chunk) :
    deviceErrorLine name (Feed.lack chunks) =
      match chunks[(Feed.ready chunks).length]? with
      | some (.failure message) => "Error opening " ++ name ++ ": " ++ message
      | _                       => "Error: HPACK integer: stream ended" := by
  rw [Feed.lack_eq]
  rcases chunks[(Feed.ready chunks).length]? with _ | _ | _ | _ <;> rfl

theorem deviceErrorLine_of_decode {octets : List UInt8} {offset : Nat}
    (h : decode octets (.whole w.bits) offset = .error fault) (name : String) :
    deviceErrorLine name fault = "Error: " ++ fault.message := by
  have hk := kind_of_decode h
  cases fault
  case device => simp [Fault.kind] at hk
  all_goals rfl

-- Without a proper width, nothing is asked for.
theorem run_receive_outside (ha : AsksToReceive arguments name n) (hn : ¬(1 ≤ n ∧ n ≤ 8))
    (chunks : List Chunk) :
    let report := run arguments (.ready chunks)
    (∃ usage, report.device = some usage ∧ Released name 0 usage) ∧
    report.status.code = 1 ∧
    report.stdout = "Error: HPACK integer: invalid prefix width " ++ toString n ++ "\n" := by
  have hr : Decoder.read (.whole n) (Feed.mk chunks 0 0) =
      leaving (Feed.mk chunks 0 0) (.error (.invalidWidth (.whole n))) :=
    Decoder.read_of_invalid (Width.ofCandidate_of_outside hn ha.writable)
  have ⟨hu, hs, ho⟩ := run_of_asksToReceive ha hr
  exact ⟨hu, hs, ho.trans (congrArg (· ++ "\n") (errorLine_invalidWidth n))⟩

-- The octets that are ready decide what is told, and the device only has a say if these are not
-- enough.
theorem run_receive_within (ha : AsksToReceive arguments name w.bits) (chunks : List Chunk) :
    let report := run arguments (.ready chunks)
    let octets := Feed.ready chunks
    (∃ usage, report.device = some usage ∧ Released name 6 usage) ∧
    (∀ value next, decode octets (.whole w.bits) (0 : Nat) = .ok (value, next) →
      report.status.code = 0 ∧ report.stdout = toString value ++ "\n") ∧
    ∀ fault, decode octets (.whole w.bits) (0 : Nat) = .error fault →
      report.status.code = 1 ∧
      (fault.kind ≠ .insufficient → report.stdout = "Error: " ++ fault.message ++ "\n") ∧
      (fault.kind = .insufficient → report.stdout =
        match chunks[octets.length]? with
        | some (.failure message) =>
          "Error opening " ++ String.ofList name ++ ": " ++ message ++ "\n"
        | _ => "Error: HPACK integer: stream ended\n") := by
  have ⟨feed, hq, hr⟩ := Feed.read_eq_leaving w chunks
  have ⟨⟨usage, hu, hl⟩, ht⟩ := run_of_asksToReceive ha hr
  refine ⟨⟨usage, hu, { hl with requests := hl.requests.trans hq }⟩, fun value next hd => ?accepted,
    fun fault hd => ?refused⟩ <;> rw [hd] at ht
  case accepted => exact ht
  case refused =>
    refine ⟨ht.left, fun hk => ?_, fun hk => ?_⟩
    · simp only [if_neg hk] at ht
      rw [ht.right, deviceErrorLine_of_decode hd]
    · simp only [if_pos hk] at ht
      rw [ht.right, deviceErrorLine_lack]
      rcases chunks[(Feed.ready chunks).length]? with _ | _ | _ | _ <;> rfl

-- A device is asked for at most six octets and is given back afterwards, whatever it delivers.
theorem run_receive_released (name : List Char) (n : Int) (chunks : List Chunk) :
    (name ≠ [] ∧ name ≠ ['-', '-'] ∧ Numeral.Writable .decimal n → ∀ hex : Option String,
      AsksToReceive (["decode", "--port=" ++ String.ofList name, "--prefix", toString n] ++
        hex.elim [] (["--", ·])) name n) ∧
    ∀ arguments, AsksToReceive arguments name n →
      let report := run arguments (.ready chunks)
      let octets := Feed.ready chunks
      (name ≠ [] ∧ name ≠ ['-', '-'] ∧ Numeral.Writable .decimal n) ∧
      (∃ usage, report.device = some usage ∧
        Released name (if 1 ≤ n ∧ n ≤ 8 then 6 else 0) usage) ∧
      (¬(1 ≤ n ∧ n ≤ 8) → report.status.code = 1 ∧ report.stdout =
        "Error: HPACK integer: invalid prefix width " ++ toString n ++ "\n") ∧
      ∀ w : Width, n = w.bits →
        (∀ value next, decode octets (.whole w.bits) (0 : Nat) = .ok (value, next) →
          report.status.code = 0 ∧ report.stdout = toString value ++ "\n") ∧
        ∀ fault, decode octets (.whole w.bits) (0 : Nat) = .error fault →
          report.status.code = 1 ∧
          (fault.kind ≠ .insufficient → report.stdout = "Error: " ++ fault.message ++ "\n") ∧
          (fault.kind = .insufficient → report.stdout =
            match chunks[octets.length]? with
            | some (.failure message) =>
              "Error opening " ++ String.ofList name ++ ": " ++ message ++ "\n"
            | _ => "Error: HPACK integer: stream ended\n") := by
  refine ⟨fun ⟨hn, hs, hw⟩ hex => ?asked, fun arguments ha => ?told⟩
  case asked => exact Numeral.decimal_eq_toString n ▸ asksToReceive hn hs hw hex
  case told =>
    have ⟨hp, hs⟩ := name_of_asksToReceive ha
    refine ⟨⟨hp, hs, ha.writable⟩, ?_⟩
    by_cases hn : 1 ≤ n ∧ n ≤ 8
    case neg =>
      have ⟨hu, ht⟩ := run_receive_outside ha hn chunks
      rw [if_neg hn]
      refine ⟨hu, fun _ => ht, fun w hw => ?_⟩
      have := w.one_le
      have := w.le_eight
      omega
    case pos =>
      obtain ⟨w, rfl⟩ := Width.exists_bits_eq hn
      have ⟨hu, ht⟩ := run_receive_within ha chunks
      rw [if_pos hn]
      refine ⟨hu, absurd hn, fun w' hw => ?_⟩
      obtain rfl : w = w' := Width.ext (Int.ofNat_inj.mp hw)
      exact ht

-- A separator in place of a name is dropped, and then there is no name.
theorem no_device_named_separator :
    let report := run ["decode", "--port=--"] (.ready [.octets [0x41]])
    (¬∃ arguments n, AsksToReceive arguments ['-', '-'] n) ∧
    report.device = none ∧ report.status.code = 2 := by
  refine ⟨fun ⟨_, _, h⟩ => (name_of_asksToReceive h).right rfl, ?_, by decide +kernel⟩
  exact Option.isNone_iff_eq_none.mp (by decide +kernel)

-- What has been delivered before the device fails is not enough.
example : (run ["decode", "--port=tty", "--prefix", "5"]
    (.ready [.octets [0x1F], .octets [0x9A], .failure "gone"])).output =
      ["Error opening tty: gone"] := by
  decide +kernel

end CommandLine
end Hpack
