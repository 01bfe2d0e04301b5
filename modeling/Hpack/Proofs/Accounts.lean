import Hpack.Proofs.Feed
import Hpack.Proofs.Trace

namespace Hpack

open Grammar

-- What the other end tells in place of an octet.
def Chunk.failure? : Chunk → Option String
  | .failure message => some message
  | _                => none

theorem Chunk.failure?_of_octet? {chunk : Chunk} (h : chunk.octet?.isSome) :
    chunk.failure? = none := by
  cases chunk
  case failure => cases h
  case octets | nothing => rfl

namespace Feed

-- What a step puts into the stream.
def Step.supplied : Step → List Chunk
  | .supply chunks => chunks
  | _              => []

-- Steps that ask for one octet at least.
def Step.Reads : Step → Prop
  | .octet         => True
  | .integer given => ∃ w : Width, given = .whole w.bits
  | .supply _      => False

-- What a step comes to where the octets are in memory.
def Step.inMemory : Step → EStateM Fault Buffer Answer
  | .octet         => return .number (← Source.pull).toNat
  | .integer given => return .number (← Decoder.read given)
  | .supply _      => return .nothing

-- The chunks that have been used up on the way from one state to another: one for each request, as
-- long as there were any.
def used (before after : Feed) : List Chunk :=
  before.queue.take (after.requests - before.requests)

-- The chunks that a run has used up, in the order in which it has done so.
def usedBy (f : Feed) : List (Trace.Entry Feed Answer) → List Chunk
  | []           => []
  | e :: entries => used f e.state ++ usedBy e.state entries

-- What a step can come to, and the state that it leaves. Where it reads, either some of the octets
-- that are ready are enough, or all of them are taken and one more request is made.
inductive Transition (f : Feed) : Step → Except Fault Answer → Feed → Prop
  | supply (chunks) : Transition f (.supply chunks) (.ok .nothing) (f.supply chunks)
  | refused {given fault} :
    Width.ofCandidate given = .error fault → Transition f (.integer given) (.error fault) f
  | served {i : Step} {outcome count} :
    0 < count → count ≤ 6 → count ≤ (ready f.queue).length → i.Reads →
    outcome.mapError Fault.kind ≠ .error .insufficient →
    i.inMemory ⟨(ready f.queue).take count, 0⟩ = leaving ⟨(ready f.queue).take count, count⟩ outcome →
    Transition f i outcome (f.after count count)
  | starved {i : Step} {count} :
    count < 6 → count = (ready f.queue).length → i.Reads →
    i.inMemory ⟨ready f.queue, 0⟩ = leaving ⟨ready f.queue, count⟩ (.error (.insufficient .buffer)) →
    Transition f i (.error (lack f.queue)) (f.after count (count + 1))

theorem Step.Reads.supplied {i : Step} (h : i.Reads) : i.supplied = [] := by
  cases i
  case octet | integer => rfl
  case supply => cases h

variable {f f' : Feed} {queue : List Chunk} {i : Step} {outcome : Except Fault Answer} {count : Nat}

theorem octet_transition (f : Feed) :
    ∃ outcome f', step .octet f = leaving f' outcome ∧ Transition f .octet outcome f' := by
  cases hr : ready f.queue
  case nil =>
    refine ⟨_, _, return_of_act _ (a := .error _) (pull_of_nil hr), ?_⟩
    exact .starved (by decide) (by rw [hr]; rfl) trivial (by rw [hr]; rfl)
  case cons octet rest =>
    have ⟨chunk, queue, hq, hc, _⟩ := exists_of_ready hr
    refine ⟨_, _, return_of_act _ (a := .ok octet) (pull_of_octet hq hc), ?_⟩
    exact .served Nat.one_pos (by decide) (by simp [hr]) trivial nofun (by rw [hr]; rfl)

theorem integer_transition (w : Width) (f : Feed) :
    ∃ outcome f', step (.integer (.whole w.bits)) f = leaving f' outcome ∧
      Transition f (.integer (.whole w.bits)) outcome f' := by
  have ⟨form, hb⟩ := Begins.exists_form w (ready f.queue)
  have hm := Buffer.read_of_begins (b := ⟨(ready f.queue).take form.length, 0⟩) hb.take_length
  rw [Nat.zero_add] at hm
  by_cases hs : form.Starved
  case pos =>
    have hr := read_of_starved hb hs
    have hn := hb.length_of_starved hs
    rw [form.verdict_of_starved hs, ← hn, List.take_length] at hm
    refine ⟨_, _, return_of_act _ (a := .error _) hr, ?_⟩
    exact .starved (hb.length_lt_of_starved hs) hn.symm ⟨w, rfl⟩ (hn ▸ return_of_act _ hm)
  case neg =>
    have hr := read_of_begins hb hs
    rw [form.verdict_of_not_starved hs] at hr
    refine ⟨_, _, return_of_act _ hr, ?_⟩
    refine .served (form.length_pos hs) hb.form_length_le hb.length_le ⟨w, rfl⟩ ?_ (return_of_act _ hm)
    have hk : (form.verdict (.insufficient .buffer)).mapError Fault.kind ≠ .error .insufficient :=
      mt form.kind_verdict_iff.mp hs
    cases hv : form.verdict (.insufficient .buffer) <;> rw [hv] at hk
    case ok => nofun
    case error => exact fun h => hk (by simpa [Except.map, Except.mapError] using h)

-- Every step is one of the transitions, wherever the stream is.
theorem step_transition (i : Step) (f : Feed) :
    ∃ outcome f', step i f = leaving f' outcome ∧ Transition f i outcome f' := by
  cases i
  case octet => exact octet_transition f
  case supply chunks => exact ⟨_, _, rfl, .supply chunks⟩
  case integer given =>
    cases hw : Width.ofCandidate given
    case error =>
      have hr : Decoder.read given f = leaving f (.error _) := Decoder.read_of_invalid hw
      exact ⟨_, _, return_of_act _ hr, .refused hw⟩
    case ok w =>
      cases Width.ofCandidate_eq_ok_iff.mp hw
      exact integer_transition w f

-- Up to the first one that is good for no octet, the chunks are good for the octets that are ready.
theorem filterMap_take (h : count ≤ (ready queue).length + 1) :
    (queue.take count).filterMap Chunk.octet? = (ready queue).take count := by
  induction queue generalizing count
  case nil => simp [ready]
  case cons chunk queue hi =>
    cases count
    case zero => rfl
    case succ count =>
      cases hc : chunk.octet?
      case none =>
        have hr : ready (chunk :: queue) = [] := by simp [ready, hc]
        rw [hr, List.length_nil, Nat.zero_add, Nat.succ_le_succ_iff, Nat.le_zero] at h
        simp [hr, h, hc]
      case some octet =>
        rw [ready_cons hc] at h ⊢
        rw [List.take_succ_cons, List.filterMap_cons_some hc, List.take_succ_cons,
          hi (Nat.le_of_succ_le_succ h)]

theorem countP_octet_take (h : count ≤ (ready queue).length + 1) :
    (queue.take count).countP (·.octet?.isSome) = min count (ready queue).length := by
  rw [← List.length_filterMap_eq_countP, filterMap_take h, List.length_take]

-- No failure is told as long as octets are ready.
theorem countP_failure_take (h : count ≤ (ready queue).length) :
    (queue.take count).countP (·.failure?.isSome) = 0 := by
  have hl : (queue.take count).countP (·.octet?.isSome) = (queue.take count).length := by
    refine Nat.le_antisymm List.countP_le_length ?_
    rw [countP_octet_take (Nat.le_succ_of_le h), Nat.min_eq_left h]
    exact List.length_take_le _ _
  rw [List.countP_eq_zero]
  intro chunk hc
  simp [Chunk.failure?_of_octet? (List.countP_eq_length.mp hl chunk hc)]

-- The request that brings no octet either makes the step lack one or tells a failure.
theorem countP_failure_take_succ (queue : List Chunk) :
    (if (lack queue).kind = .insufficient then 1 else 0) +
      (queue.take ((ready queue).length + 1)).countP (·.failure?.isSome) = 1 := by
  rw [List.take_add_one, List.countP_append, countP_failure_take le_rfl, Nat.zero_add, lack_eq]
  rcases queue[(ready queue).length]? with _ | _ | _ | _ <;> rfl

theorem lack_take : lack (queue.take ((ready queue).length + 1)) = lack queue := by
  induction queue
  case nil => rfl
  case cons chunk queue hi =>
    cases hc : chunk.octet?
    case none => simp [lack, ready, hc]
    case some =>
      rw [ready_cons hc, List.length_cons, List.take_succ_cons, lack_cons hc, lack_cons hc, hi]

-- What a step does to a stream is told by the chunks that it uses up. Its outcome is the one for
-- their octets in memory, apart from what the lack of another octet comes to.
structure Accounted (i : Step) (before : Feed) (outcome : Except Fault Answer) (after : Feed) :
    Prop where
  queue    : used before after ++ after.queue = before.queue ++ i.supplied
  next     : i.Reads → (used before after).head? = before.queue.head?
  consumed : after.consumed = before.consumed + (used before after).countP (·.octet?.isSome)
  requests : after.requests = before.requests + (used before after).countP (·.octet?.isSome) +
    ((if outcome.mapError Fault.kind = .error .insufficient then 1 else 0) +
      (used before after).countP (·.failure?.isSome))
  slow     : (before.consumed ≤ after.consumed ∧ after.consumed ≤ before.consumed + 6) ∧
    (before.requests ≤ after.requests ∧ after.requests ≤ before.requests + 6)
  inMemory : let octets := (used before after).filterMap Chunk.octet?
    ∃ told, i.inMemory ⟨octets, 0⟩ = leaving ⟨octets, octets.length⟩ told ∧
      outcome = told.mapError fun fault =>
        if fault.kind = .insufficient then lack (used before after) else fault

theorem used_after (f : Feed) (taken requests : Nat) :
    used f (f.after taken requests) = f.queue.take requests := by
  rw [used, after, Nat.add_sub_cancel_left]

theorem used_of_requests_eq (h : f'.requests = f.requests) : used f f' = [] := by
  rw [used, h, Nat.sub_self, List.take_zero]

namespace Transition

theorem accounted (h : Transition f i outcome f') : Accounted i f outcome f' := by
  cases h
  case supply chunks =>
    have hu : used f (f.supply chunks) = [] := used_of_requests_eq rfl
    exact {
      queue    := by rw [hu]; rfl
      next     := nofun
      consumed := by rw [hu]; rfl
      requests := by rw [hu]; rfl
      slow     := by simp [Feed.supply]
      inMemory := ⟨.ok .nothing, by rw [hu]; rfl, rfl⟩
    }
  case refused given fault hw =>
    have hu : used f f = [] := used_of_requests_eq rfl
    have hr : Decoder.read given (Buffer.mk [] 0) = leaving _ (.error fault) :=
      Decoder.read_of_invalid hw
    have hk := Width.kind_ne_insufficient_of_ofCandidate hw
    exact {
      queue    := by rw [hu, List.nil_append]; exact (List.append_nil _).symm
      next     := fun ⟨w, hg⟩ => by rw [hg, Width.ofCandidate_bits] at hw; cases hw
      consumed := by rw [hu]; rfl
      requests := by rw [hu, if_neg (by simpa [Except.mapError] using hk)]; rfl
      slow     := by simp
      inMemory := ⟨.error fault, by rw [hu]; exact return_of_act _ hr, congrArg _ (if_neg hk).symm⟩
    }
  case served count hp hn hl hi hk hm =>
    have hu := used_after f count count
    have ho := countP_octet_take (Nat.le_succ_of_le hl)
    have hf := countP_failure_take hl
    have hq := filterMap_take (Nat.le_succ_of_le hl)
    exact {
      queue    := by rw [hu, hi.supplied, List.append_nil]; exact List.take_append_drop _ _
      next     := fun _ => by rw [hu, List.head?_take, if_neg hp.ne']
      consumed := by rw [hu, ho, Nat.min_eq_left hl]; rfl
      requests := by rw [hu, ho, hf, Nat.min_eq_left hl, if_neg hk]; rfl
      slow     := by simp [after, hn]
      inMemory := by
        rw [hu, hq]
        refine ⟨outcome, by rw [List.length_take_of_le hl]; exact hm, ?_⟩
        cases outcome
        case ok => rfl
        case error => exact congrArg _ (if_neg (hk <| congrArg _ ·)).symm
    }
  case starved count hn hl hi hm =>
    subst hl
    have hu := used_after f (ready f.queue).length ((ready f.queue).length + 1)
    have ho := countP_octet_take (Nat.le_refl ((ready f.queue).length + 1))
    rw [Nat.min_eq_right (Nat.le_succ _)] at ho
    have hf := countP_failure_take_succ f.queue
    have hq := filterMap_take (Nat.le_refl ((ready f.queue).length + 1))
    rw [List.take_of_length_le (Nat.le_succ _)] at hq
    exact {
      queue    := by rw [hu, hi.supplied, List.append_nil]; exact List.take_append_drop _ _
      next     := fun _ => by rw [hu, List.head?_take, if_neg (Nat.succ_ne_zero _)]
      consumed := by rw [hu, ho]; rfl
      requests := by simp only [hu, ho, Except.mapError, Except.error.injEq, hf]; rfl
      slow     := by simp [after, hn.le, Nat.succ_le_of_lt hn]
      inMemory := by
        rw [hu, hq, lack_take]
        exact ⟨.error (.insufficient .buffer), hm, rfl⟩
    }

end Transition

-- What a step does wherever the stream is.
theorem step_accounted (i : Step) (f : Feed) :
    ∃ outcome f', step i f = leaving f' outcome ∧ Accounted i f outcome f' := by
  have ⟨outcome, f', hs, ht⟩ := step_transition i f
  exact ⟨outcome, f', hs, ht.accounted⟩

section

variable {steps : List Step} {entries : List (Trace.Entry Feed Answer)}

-- The chunks are used up in the order in which they have been supplied, and none of them twice.
theorem usedBy_append_queue (h : Trace.Throughout Accounted f steps entries) :
    usedBy f entries ++ (Trace.reached f entries).queue =
      f.queue ++ steps.flatMap Step.supplied := by
  induction h
  case nil => exact (List.append_nil _).symm
  case cons i e steps entries ha _ hi =>
    calc
      _ = used _ e.state ++ (usedBy e.state entries ++ (Trace.reached e.state entries).queue) := by
        rw [Trace.reached_cons, usedBy, List.append_assoc]
      _ = used _ e.state ++ e.state.queue ++ steps.flatMap Step.supplied := by
        rw [hi, List.append_assoc]
      _ = _ := by rw [ha.queue, List.flatMap_cons, List.append_assoc]

theorem consumed_reached (h : Trace.Throughout Accounted f steps entries) :
    (Trace.reached f entries).consumed =
      f.consumed + (usedBy f entries).countP (·.octet?.isSome) := by
  induction h
  case nil => rfl
  case cons ha _ hi =>
    rw [Trace.reached_cons, usedBy, List.countP_append, hi, ha.consumed, Nat.add_assoc]

theorem requests_reached (h : Trace.Throughout Accounted f steps entries) :
    (Trace.reached f entries).requests =
      f.requests + (usedBy f entries).countP (·.octet?.isSome) +
        (entries.countP (·.outcome.mapError Fault.kind = .error .insufficient) +
          (usedBy f entries).countP (·.failure?.isSome)) := by
  induction h
  case nil => rfl
  case cons ha _ hi =>
    simp only [Trace.reached_cons, usedBy, List.countP_append, List.countP_cons, hi, ha.requests,
      decide_eq_true_eq]
    omega

end

-- A run keeps its accounts in every state that it reaches. Each request has brought an octet, has
-- left a step without one, or has been answered by a failure.
theorem balanced_throughout (chunks : List Chunk) (steps : List Step) :
    let start : Feed := { queue := chunks }
    let entries := trace step start steps
    let f := Trace.reached start entries
    let used := usedBy start entries
    Trace.Throughout Accounted start steps entries ∧
    used ++ f.queue = chunks ++ steps.flatMap Step.supplied ∧
    f.consumed = used.countP (·.octet?.isSome) ∧
    f.requests = f.consumed +
      (entries.countP (·.outcome.mapError Fault.kind = .error .insufficient) +
        used.countP (·.failure?.isSome)) := by
  intro start entries f used
  have h := Trace.throughout_trace step_accounted start steps
  have hc := consumed_reached h
  have hr := requests_reached h
  rw [← hc] at hr
  rw [Nat.zero_add] at hc
  exact ⟨h, usedBy_append_queue h, hc, hr⟩

-- The end of what there is does not stick: octets are delivered behind two requests in vain. The
-- second octet of a chunk is lost.
example :
    let start : Feed := { queue := [.octets [0x1F], .octets [], .nothing, .octets [0x9A, 0x33]] }
    let steps : List Step := [.integer (.whole 5), .octet, .supply [.octets [0x0A]], .octet, .octet]
    (trace step start steps).map (·.outcome) =
      [.error (.insufficient .stream), .error (.insufficient .stream), .ok .nothing,
        .ok (.number 0x9A), .ok (.number 0x0A)] := by
  decide

end Feed
end Hpack
