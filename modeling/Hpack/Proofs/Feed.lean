import Hpack.Feed
import Hpack.Proofs.Decode

namespace Hpack

open Grammar

-- The octet that a chunk is good for, whatever follows it.
def Chunk.octet? : Chunk → Option UInt8
  | .octets data => data.head?
  | _            => none

namespace Feed

-- The octets of the chunks up to the first one that is good for none.
def ready (queue : List Chunk) : List UInt8 :=
  (queue.takeWhile (·.octet?.isSome)).filterMap Chunk.octet?

-- What the first request comes to that brings no octet.
def lack (queue : List Chunk) : Fault :=
  match (queue.dropWhile (·.octet?.isSome)).head? with
  | some (.failure message) => .device message
  | _                       => .insufficient .stream

-- A stream after some requests, of which a number has brought an octet.
def after (f : Feed) (taken requests : Nat) : Feed where
  queue    := f.queue.drop requests
  consumed := f.consumed + taken
  requests := f.requests + requests

variable {f : Feed} {octet : UInt8} {octets rest : List UInt8} {chunk : Chunk} {queue : List Chunk}

theorem ready_cons (h : chunk.octet? = some octet) :
    ready (chunk :: queue) = octet :: ready queue := by
  simp [ready, h]

theorem lack_cons (h : chunk.octet? = some octet) : lack (chunk :: queue) = lack queue := by
  simp [lack, h]

theorem lack_of_silent (h : ∀ message, .failure message ∉ queue) :
    lack queue = .insufficient .stream := by
  rw [lack]
  split
  case h_1 message hd =>
    have hm := (List.dropWhile_sublist _).mem (List.mem_of_mem_head? hd)
    exact absurd hm (h message)
  case h_2 => rfl

-- The first chunk that is good for no octet is the one behind those that are ready.
theorem lack_eq (queue : List Chunk) :
    lack queue =
      match queue[(ready queue).length]? with
      | some (.failure message) => .device message
      | _                       => .insufficient .stream := by
  induction queue
  case nil => rfl
  case cons chunk queue hi =>
    cases hc : chunk.octet?
    case none => simp [lack, ready, hc]
    case some => rw [lack_cons hc, ready_cons hc, List.length_cons, List.getElem?_cons_succ, hi]

theorem exists_of_ready (h : ready queue = octet :: rest) :
    ∃ chunk queue', queue = chunk :: queue' ∧ chunk.octet? = some octet ∧ ready queue' = rest := by
  cases queue
  case nil => simp [ready] at h
  case cons chunk queue =>
    cases hc : chunk.octet?
    case none => simp [ready, hc] at h
    case some =>
      rw [ready_cons hc] at h
      injection h with ho hr
      exact ⟨chunk, queue, rfl, ho ▸ hc, hr⟩

theorem after_after {taken requests taken' requests' : Nat} :
    (f.after taken requests).after taken' requests' =
      f.after (taken + taken') (requests + requests') := by
  simp [after, Nat.add_assoc]

theorem pull_of_octet (hq : f.queue = chunk :: queue) (hc : chunk.octet? = some octet) :
    Source.pull f = .ok octet (f.after 1 1) := by
  rcases chunk with ⟨_ | ⟨_, _⟩⟩ | _ | _ <;> cases hc
  simp [Source.pull, pull, after, hq]

-- A request that brings nothing counts as well, and uses up a chunk.
theorem pull_of_nil (h : ready f.queue = []) :
    Source.pull f = .error (lack f.queue) (f.after 0 1) := by
  cases hq : f.queue
  case nil => simp [Source.pull, pull, after, lack, hq]
  case cons chunk queue =>
    cases hc : chunk.octet?
    case some => simp [hq, ready_cons hc] at h
    case none =>
      rcases chunk with ⟨_ | ⟨_, _⟩⟩ | _ | _ <;> cases hc <;>
        simp [Source.pull, pull, after, lack, hq, Chunk.octet?]

-- The octets that are ready are delivered one after the other, with a request for each.
theorem delivers (h : ready f.queue = octets ++ rest) :
    let f' := f.after octets.length octets.length
    Delivers f octets f' ∧ ready f'.queue = rest ∧ lack f'.queue = lack f.queue := by
  induction octets generalizing f
  case nil => exact ⟨.nil, h, rfl⟩
  case cons octet octets hi =>
    have ⟨chunk, queue, hq, hc, hr⟩ := exists_of_ready h
    have hf : (f.after 1 1).queue = queue := by simp [after, hq]
    have ⟨hd, hr, hl⟩ := hi (hf ▸ hr)
    rw [after_after, Nat.add_comm 1] at hd hr hl
    exact ⟨.cons (pull_of_octet hq hc) hd, hr, by rw [List.length_cons, hl, hf, hq, lack_cons hc]⟩

variable {w : Width} {form : Form}

theorem read_of_begins (h : Begins w (ready f.queue) form) (hs : ¬form.Starved) :
    Decoder.read (.whole w.bits) f =
      leaving (f.after form.length form.length) (form.verdict (lack f.queue)) := by
  have ⟨hd, _⟩ := delivers (List.take_append_drop form.length (ready f.queue)).symm
  rw [List.length_take_of_le h.length_le] at hd
  exact Decoder.read_of_begins h hd (.of_not_starved hs)

-- All octets that are ready are taken before one more request is made.
theorem read_of_starved (h : Begins w (ready f.queue) form) (hs : form.Starved) :
    Decoder.read (.whole w.bits) f =
      .error (lack f.queue) (f.after form.length (form.length + 1)) := by
  have hn := h.length_of_starved hs
  have ⟨hd, hr, hl⟩ := delivers (List.append_nil (ready f.queue)).symm
  rw [hn] at hd hr hl
  have hp := pull_of_nil hr
  rw [hl, after_after, Nat.add_zero] at hp
  rw [← List.take_length (l := ready f.queue), hn] at hd
  rw [Decoder.read_of_begins h hd (.of_starved hs hp), form.verdict_of_starved hs]
  rfl

-- As long as reading succeeds, there is an octet for each request.
theorem exists_of_read {given : Width.Candidate} {value : Nat} {f' : Feed}
    (h : Decoder.read given f = .ok value f') : ∃ count, f' = f.after count count := by
  cases hw : Width.ofCandidate given
  case error => cases (Decoder.read_of_invalid hw).symm.trans h
  case ok w =>
    cases Width.ofCandidate_eq_ok_iff.mp hw
    have ⟨form, hb⟩ := Begins.exists_form w (ready f.queue)
    by_cases hs : form.Starved
    case pos => cases (read_of_starved hb hs).symm.trans h
    case neg =>
      rw [read_of_begins hb hs] at h
      cases hv : form.verdict (lack f.queue) <;> rw [hv] at h <;> cases h
      exact ⟨form.length, rfl⟩

theorem consumed_of_read {given : Width.Candidate} {value : Nat} {f' : Feed}
    (h : Decoder.read given (Feed.mk queue 0 0) = .ok value f') : f'.consumed = f'.requests := by
  have ⟨_, hf⟩ := exists_of_read h
  rw [hf]
  rfl

-- A stream has few requests to answer. What it delivers beyond the octets that are ready only counts
-- if these are not enough.
theorem read_eq_leaving (w : Width) (chunks : List Chunk) :
    ∃ f' : Feed, f'.requests ≤ 6 ∧
      Decoder.read (.whole w.bits) (Feed.mk chunks 0 0) =
        leaving f' (match decode (ready chunks) (.whole w.bits) (0 : Nat) with
          | .ok (value, _) => .ok value
          | .error fault   => .error (if fault.kind = .insufficient then lack chunks else fault)) := by
  have ⟨form, hb⟩ := Begins.exists_form w (ready chunks)
  have hd : decode (ready chunks) (.whole w.bits) (0 : Nat) = _ := decode_of_begins hb
  let f := Feed.mk chunks 0 0
  by_cases hs : form.Starved
  case pos =>
    have hr := read_of_starved (f := f) hb hs
    have hn : (f.after form.length (form.length + 1)).requests ≤ 6 := by
      simpa [f, after] using hb.length_lt_of_starved hs
    rw [form.verdict_of_starved hs] at hd
    exact ⟨_, hn, by rw [hr, hd]; rfl⟩
  case neg =>
    have hr := read_of_begins (f := f) hb hs
    have hn : (f.after form.length form.length).requests ≤ 6 := by
      simpa [f, after] using hb.form_length_le
    rw [form.verdict_of_not_starved hs] at hr
    refine ⟨_, hn, ?_⟩
    rw [hr, hd]
    cases hv : form.verdict (.insufficient .buffer)
    case ok => rfl
    case error fault =>
      have hk : fault.kind ≠ .insufficient := fun hk =>
        hs (form.kind_verdict_iff.mp (by rw [hv, Except.mapError, hk]))
      simp only [Except.map, if_neg hk]

-- A stream is read like a buffer of the octets that it has ready. A request is made for each octet
-- which is taken, and one more if another octet is needed.
theorem read_refines_buffer (given : Width.Candidate) (f : Feed)
    (hf : ∀ message, .failure message ∉ f.queue) :
    ∃ position requests inMemory inStream,
      Decoder.read given (Buffer.mk (ready f.queue) 0) =
        leaving (Buffer.mk (ready f.queue) position) inMemory ∧
      Decoder.read given f =
        leaving (Feed.mk (f.queue.drop requests) (f.consumed + position) (f.requests + requests))
          inStream ∧
      inStream.mapError Fault.kind = inMemory.mapError Fault.kind ∧
      if inMemory.mapError Fault.kind = .error .insufficient then
        requests = position + 1
      else
        requests = position ∧ inStream = inMemory := by
  cases hw : Width.ofCandidate given
  case error fault =>
    refine ⟨0, 0, .error fault, .error fault, Decoder.read_of_invalid hw, Decoder.read_of_invalid hw,
      rfl, ?_⟩
    rw [if_neg (by simpa [Except.mapError] using Width.kind_ne_insufficient_of_ofCandidate hw)]
    exact ⟨rfl, rfl⟩
  case ok w =>
    cases Width.ofCandidate_eq_ok_iff.mp hw
    have ⟨form, hb⟩ := Begins.exists_form w (ready f.queue)
    have hm := Buffer.read_of_begins (b := { octets := ready f.queue, position := 0 }) hb
    rw [Nat.zero_add] at hm
    by_cases hs : form.Starved
    case pos =>
      have hr := read_of_starved hb hs
      rw [lack_of_silent hf] at hr
      rw [form.verdict_of_starved hs] at hm
      exact ⟨_, _, _, .error (.insufficient .stream), hm, hr, rfl, rfl⟩
    case neg =>
      have hr := read_of_begins hb hs
      rw [form.verdict_of_not_starved hs] at hr
      refine ⟨_, _, _, _, hm, hr, rfl, ?_⟩
      rw [if_neg (mt (form.kind_verdict_iff).mp hs)]
      exact ⟨rfl, rfl⟩

-- The second octet of the first chunk is lost, and the last chunk stays where it is.
theorem read_refines_buffer_up_to_gap :
    let f : Feed := { queue := [.octets [0xFF, 0x01], .octets [0x9A], .nothing, .octets [0x0A]] }
    (∀ message, .failure message ∉ f.queue) ∧
    ready f.queue = [0xFF, 0x9A] ∧
    Decoder.read (.whole 5) f = .error (.insufficient .stream) ⟨[.octets [0x0A]], 2, 3⟩ ∧
    ∃ position requests inMemory inStream,
      Decoder.read (.whole 5) (Buffer.mk (ready f.queue) 0) =
        leaving (Buffer.mk (ready f.queue) position) inMemory ∧
      Decoder.read (.whole 5) f =
        leaving (Feed.mk (f.queue.drop requests) (f.consumed + position) (f.requests + requests))
          inStream ∧
      inStream.mapError Fault.kind = inMemory.mapError Fault.kind ∧
      if inMemory.mapError Fault.kind = .error .insufficient then
        requests = position + 1
      else
        requests = position ∧ inStream = inMemory :=
  ⟨by simp, by decide, by rfl, read_refines_buffer (.whole 5) _ (by simp)⟩

end Feed
end Hpack
