import Mathlib.Data.List.Basic

/-!
# Buffered channels, and a worker that answers requests

A channel holds at most as much as its capacity. A send or a receive that would block, and a
send or a close on a closed channel, has no next state. A worker takes requests from one
channel and puts its answers on another, which it closes when it ends; it may end behind an
answer. Neither side ever blocks on a send where there are no more requests than a channel can
hold, and the client gets something for every request, if only from a closed channel.
-/
namespace Go

structure Channel (α : Type*) where
  buffer : List α
  capacity : Nat
  closed : Bool
  fits : buffer.length ≤ capacity

namespace Channel

variable {α : Type*}

def make (capacity : Nat) : Channel α := ⟨[], capacity, false, Nat.zero_le _⟩

def send (c : Channel α) (a : α) : Option (Channel α) :=
  if h : c.closed = false ∧ c.buffer.length < c.capacity then
    some { c with
      buffer := c.buffer ++ [a]
      fits := by rw [List.length_append, List.length_singleton]; exact h.2 }
  else none

/-- What is received, and nothing where the channel is closed and empty. -/
def receive : Channel α → Option (Option α × Channel α)
  | ⟨a :: rest, capacity, closed, fits⟩ =>
    some (some a, ⟨rest, capacity, closed, Nat.le_of_succ_le fits⟩)
  | ⟨[], capacity, closed, fits⟩ =>
    if closed then some (none, ⟨[], capacity, closed, fits⟩) else none

def close (c : Channel α) : Option (Channel α) :=
  if c.closed then none else some { c with closed := true }

variable {c d : Channel α}

theorem exists_send (hopen : c.closed = false) (hroom : c.buffer.length < c.capacity) (a : α) :
    ∃ d, c.send a = some d := ⟨_, dif_pos ⟨hopen, hroom⟩⟩

theorem of_send {a : α} (h : c.send a = some d) :
    d.buffer = c.buffer ++ [a] ∧ d.capacity = c.capacity ∧ d.closed = c.closed := by
  unfold send at h
  split at h
  · cases h
    exact ⟨rfl, rfl, rfl⟩
  · cases h

theorem exists_receive (h : c.buffer ≠ [] ∨ c.closed = true) :
    ∃ o d, c.receive = some (o, d) := by
  obtain ⟨buffer, capacity, closed, fits⟩ := c
  cases buffer with
  | cons a rest => exact ⟨_, _, rfl⟩
  | nil =>
    rcases h with h | h
    · exact absurd rfl h
    · exact ⟨none, _, if_pos h⟩

theorem of_receive_some {a : α} (h : c.receive = some (some a, d)) :
    c.buffer = a :: d.buffer ∧ d.capacity = c.capacity ∧ d.closed = c.closed := by
  obtain ⟨buffer, capacity, closed, fits⟩ := c
  cases buffer with
  | cons b rest =>
    cases h
    exact ⟨rfl, rfl, rfl⟩
  | nil =>
    rw [receive] at h
    split at h
    · cases h
    · cases h

theorem of_receive_none (h : c.receive = some (none, d)) :
    c.buffer = [] ∧ c.closed = true ∧ d = c := by
  obtain ⟨buffer, capacity, closed, fits⟩ := c
  cases buffer with
  | cons b rest => cases h
  | nil =>
    rw [receive] at h
    split at h
    · rename_i hclosed
      cases h
      exact ⟨rfl, hclosed, rfl⟩
    · cases h

theorem exists_close (hopen : c.closed = false) : ∃ d, c.close = some d :=
  ⟨_, if_neg (by rw [hopen]; exact Bool.false_ne_true)⟩

theorem of_close (h : c.close = some d) :
    d.buffer = c.buffer ∧ d.capacity = c.capacity ∧ d.closed = true := by
  unfold close at h
  split at h
  · cases h
  · cases h
    exact ⟨rfl, rfl, rfl⟩

end Channel

/-- Where a worker is: it waits for a request, works on one, has an answer to send, has left
its loop, or has ended. -/
inductive Worker (α ε : Type*) where
  | receiving
  | working (a : α)
  | sending (e : ε) (goesOn : Bool)
  | closing
  | done

/-- The request that a worker has taken and not worked on. -/
def Worker.inHand {α ε : Type*} : Worker α ε → List α
  | .working a => [a]
  | _ => []

/-- How many requests a worker has taken and not answered. -/
def Worker.busy {α ε : Type*} : Worker α ε → Nat
  | .working _ | .sending _ _ => 1
  | _ => 0

/-- The worker is in its loop. -/
def Worker.inLoop {α ε : Type*} : Worker α ε → Bool
  | .closing | .done => false
  | _ => true

/-- A worker with its two channels and what it has worked on. -/
structure Line (α ε : Type*) where
  requests : Channel α
  replies : Channel ε
  worker : Worker α ε
  log : List α

inductive LineAction where
  | take
  | work
  | reply
  | close
  deriving DecidableEq

namespace Line

variable {α ε : Type*}

def make (capacity : Nat) : Line α ε :=
  ⟨Channel.make capacity, Channel.make capacity, .receiving, []⟩

/-- A step of the worker; an answer comes with whether the worker stays in its loop. -/
def step (answer : α → ε × Bool) (l : Line α ε) : LineAction → Option (Line α ε)
  | .take =>
    match l.worker with
    | .receiving =>
      match l.requests.receive with
      | some (some a, requests) => some { l with requests, worker := .working a }
      | some (none, requests) => some { l with requests, worker := .closing }
      | none => none
    | _ => none
  | .work =>
    match l.worker with
    | .working a =>
      some { l with worker := .sending (answer a).1 (answer a).2, log := l.log ++ [a] }
    | _ => none
  | .reply =>
    match l.worker with
    | .sending e goesOn =>
      (l.replies.send e).map fun replies =>
        { l with replies, worker := if goesOn then .receiving else .closing }
    | _ => none
  | .close =>
    match l.worker with
    | .closing => l.replies.close.map fun replies => { l with replies, worker := .done }
    | _ => none

/-- The client sends a request. -/
def ask (l : Line α ε) (a : α) : Option (Line α ε) :=
  (l.requests.send a).map fun requests => { l with requests }

/-- The client receives an answer. -/
def collect (l : Line α ε) : Option (Option ε × Line α ε) :=
  l.replies.receive.map fun r => (r.1, { l with replies := r.2 })

/-- The client has no more requests. -/
def shut (l : Line α ε) : Option (Line α ε) :=
  l.requests.close.map fun requests => { l with requests }

/-- Everything one step of the worker can do. -/
inductive Moves (answer : α → ε × Bool) (l : Line α ε) : LineAction → Line α ε → Prop where
  | takes {a : α} {requests : Channel α} (hw : l.worker = .receiving)
      (hr : l.requests.receive = some (some a, requests)) :
      Moves answer l .take { l with requests, worker := .working a }
  | leaves (hw : l.worker = .receiving) (hr : l.requests.buffer = [] ∧ l.requests.closed = true) :
      Moves answer l .take { l with worker := .closing }
  | works {a : α} (hw : l.worker = .working a) :
      Moves answer l .work
        { l with worker := .sending (answer a).1 (answer a).2, log := l.log ++ [a] }
  | replies {e : ε} {replies : Channel ε} (hw : l.worker = .sending e true)
      (hs : l.replies.send e = some replies) :
      Moves answer l .reply { l with replies, worker := .receiving }
  | returns {e : ε} {replies : Channel ε} (hw : l.worker = .sending e false)
      (hs : l.replies.send e = some replies) :
      Moves answer l .reply { l with replies, worker := .closing }
  | closes {replies : Channel ε} (hw : l.worker = .closing)
      (hc : l.replies.close = some replies) :
      Moves answer l .close { l with replies, worker := .done }

variable {answer : α → ε × Bool} {l l' : Line α ε}

theorem moves_of_step {a : LineAction} (h : l.step answer a = some l') :
    Moves answer l a l' := by
  cases a with
  | take =>
    simp only [step] at h
    split at h
    · rename_i hw
      split at h
      · rename_i hr
        cases h
        exact .takes hw hr
      · rename_i hr
        obtain ⟨hempty, hclosed, rfl⟩ := Channel.of_receive_none hr
        cases h
        exact .leaves hw ⟨hempty, hclosed⟩
      · cases h
    · cases h
  | work =>
    simp only [step] at h
    split at h
    · rename_i hw
      cases h
      exact .works hw
    · cases h
  | reply =>
    simp only [step] at h
    split at h
    · rename_i e goesOn hw
      obtain ⟨replies, hs, rfl⟩ := Option.map_eq_some_iff.mp h
      cases goesOn with
      | true => exact .replies hw hs
      | false => exact .returns hw hs
    · cases h
  | close =>
    simp only [step] at h
    split at h
    · rename_i hw
      obtain ⟨replies, hc, rfl⟩ := Option.map_eq_some_iff.mp h
      exact .closes hw hc
    · cases h

/-- An answer behind which the worker leaves its loop was given. -/
def Returned (answer : α → ε × Bool) (l : Line α ε) : Prop := ∃ a ∈ l.log, (answer a).2 = false

/-- What holds of a line where the client has asked so much and received so often. -/
structure Inv (answer : α → ε × Bool) (capacity : Nat) (asked : List α) (got : Nat)
    (l : Line α ε) : Prop where
  history : l.log ++ l.worker.inHand ++ l.requests.buffer = asked
  requests_capacity : l.requests.capacity = capacity
  replies_capacity : l.replies.capacity = capacity
  asked_le : asked.length ≤ capacity
  replies_closed : l.replies.closed = true ↔ l.worker = .done
  got_le : got + l.replies.buffer.length ≤ asked.length
  pending : l.worker.inLoop = true →
    got + l.replies.buffer.length + l.worker.busy + l.requests.buffer.length = asked.length
  ended : l.worker.inLoop = false →
    Returned answer l ∨ (l.requests.closed = true ∧ l.requests.buffer = [])
  returns : ∀ e, l.worker = .sending e false → Returned answer l

variable {capacity got : Nat} {asked : List α}

theorem inv_make (answer : α → ε × Bool) (capacity : Nat) :
    Inv answer capacity [] 0 (make capacity) where
  history := rfl
  requests_capacity := rfl
  replies_capacity := rfl
  asked_le := Nat.zero_le _
  replies_closed := by constructor <;> intro h <;> cases h
  got_le := Nat.le_refl _
  pending _ := rfl
  ended h := by cases h
  returns e h := by cases h

/-- An answer that is sent takes the place of the request that the worker was busy with. -/
theorem Inv.answered (h : Inv answer capacity asked got l) {e : ε} {goesOn : Bool}
    (hw : l.worker = .sending e goesOn) {replies : Channel ε}
    (hs : l.replies.send e = some replies) :
    got + replies.buffer.length + l.requests.buffer.length = asked.length := by
  have heq := h.pending (by rw [hw]; rfl)
  have hbusy : l.worker.busy = 1 := by rw [hw]; rfl
  rw [(Channel.of_send hs).1, List.length_append, List.length_singleton]
  omega

theorem Inv.step (h : Inv answer capacity asked got l) {a : LineAction}
    (hs : l.step answer a = some l') : Inv answer capacity asked got l' := by
  have hhistory := h.history
  have hclosed := h.replies_closed
  cases moves_of_step hs with
  | @takes b requests hw hr =>
    obtain ⟨hbuffer, hcap, -⟩ := Channel.of_receive_some hr
    have heq := h.pending (by rw [hw]; rfl)
    simp only [hw, hbuffer, Worker.inHand, Worker.busy, List.length_cons] at hhistory hclosed heq
    exact
      { h with
        history := by simpa [Worker.inHand] using hhistory
        requests_capacity := hcap.trans h.requests_capacity
        replies_closed := by simpa using hclosed
        pending := fun _ => by
          show got + l.replies.buffer.length + 1 + requests.buffer.length = _
          omega
        ended := fun hend => by cases hend
        returns := fun e he => by cases he }
  | leaves hw hr =>
    simp only [hw, Worker.inHand] at hhistory hclosed
    exact
      { h with
        history := hhistory
        replies_closed := by simpa using hclosed
        pending := fun hin => by cases hin
        ended := fun _ => Or.inr ⟨hr.2, hr.1⟩
        returns := fun e he => by cases he }
  | @works b hw =>
    have heq := h.pending (by rw [hw]; rfl)
    simp only [hw, Worker.inHand, Worker.busy] at hhistory hclosed heq
    exact
      { h with
        history := by simpa [Worker.inHand] using hhistory
        replies_closed := by simpa using hclosed
        pending := fun _ => heq
        ended := fun hend => by cases hend
        returns := fun e he => by
          injection he with _ hfalse
          exact ⟨b, List.mem_append_right _ List.mem_cons_self, hfalse⟩ }
  | @replies e replies hw hr =>
    obtain ⟨-, hcap, hshut⟩ := Channel.of_send hr
    have heq := h.answered hw hr
    simp only [hw, Worker.inHand] at hhistory hclosed
    exact
      { h with
        history := hhistory
        replies_capacity := hcap.trans h.replies_capacity
        replies_closed := by simpa [hshut] using hclosed
        got_le := heq ▸ Nat.le_add_right _ _
        pending := fun _ => heq
        ended := fun hend => by cases hend
        returns := fun e he => by cases he }
  | @returns e replies hw hr =>
    obtain ⟨-, hcap, hshut⟩ := Channel.of_send hr
    have heq := h.answered hw hr
    simp only [hw, Worker.inHand] at hhistory hclosed
    exact
      { h with
        history := hhistory
        replies_capacity := hcap.trans h.replies_capacity
        replies_closed := by simpa [hshut] using hclosed
        got_le := heq ▸ Nat.le_add_right _ _
        pending := fun hin => by cases hin
        ended := fun _ => Or.inl (h.returns e hw)
        returns := fun e he => by cases he }
  | @closes replies hw hc =>
    obtain ⟨hbuffer, hcap, hshut⟩ := Channel.of_close hc
    simp only [hw, Worker.inHand] at hhistory
    exact
      { h with
        history := hhistory
        replies_capacity := hcap.trans h.replies_capacity
        replies_closed := ⟨fun _ => rfl, fun _ => hshut⟩
        got_le := by
          rw [hbuffer]
          exact h.got_le
        pending := fun hin => by cases hin
        ended := fun _ => h.ended (by rw [hw]; rfl)
        returns := fun e he => by cases he }

/-- The worker leaves it to the client to close its requests. -/
theorem closed_step {a : LineAction} (hs : l.step answer a = some l') :
    l'.requests.closed = l.requests.closed := by
  cases moves_of_step hs with
  | takes hw hr => exact (Channel.of_receive_some hr).2.2
  | leaves hw hr => rfl
  | works hw => rfl
  | replies hw hr => rfl
  | returns hw hr => rfl
  | closes hw hc => rfl

theorem ask_eq {a : α} (h : l.ask a = some l') :
    ∃ requests, l.requests.send a = some requests ∧ l' = { l with requests } := by
  obtain ⟨requests, hs, heq⟩ := Option.map_eq_some_iff.mp h
  exact ⟨requests, hs, heq.symm⟩

theorem collect_eq {o : Option ε} (h : l.collect = some (o, l')) :
    ∃ replies, l.replies.receive = some (o, replies) ∧ l' = { l with replies } := by
  obtain ⟨⟨o', replies⟩, hr, heq⟩ := Option.map_eq_some_iff.mp h
  obtain ⟨rfl, rfl⟩ := Prod.mk.inj heq
  exact ⟨replies, hr, rfl⟩

theorem shut_eq (h : l.shut = some l') :
    ∃ requests, l.requests.close = some requests ∧ l' = { l with requests } := by
  obtain ⟨requests, hc, heq⟩ := Option.map_eq_some_iff.mp h
  exact ⟨requests, hc, heq.symm⟩

theorem closed_ask {a : α} (h : l.ask a = some l') : l'.requests.closed = l.requests.closed := by
  obtain ⟨requests, hs, rfl⟩ := ask_eq h
  exact (Channel.of_send hs).2.2

theorem closed_collect {o : Option ε} (h : l.collect = some (o, l')) :
    l'.requests.closed = l.requests.closed := by
  obtain ⟨replies, -, rfl⟩ := collect_eq h
  rfl

theorem closed_shut (h : l.shut = some l') : l'.requests.closed = true := by
  obtain ⟨requests, hc, rfl⟩ := shut_eq h
  exact (Channel.of_close hc).2.2

theorem Inv.ask (h : Inv answer capacity asked got l) (hle : asked.length < capacity)
    (hopen : l.requests.closed = false) {a : α} (ha : l.ask a = some l') :
    Inv answer capacity (asked ++ [a]) got l' := by
  obtain ⟨requests, hs, rfl⟩ := ask_eq ha
  obtain ⟨hbuffer, hcap, hshut⟩ := Channel.of_send hs
  have hlen : requests.buffer.length = l.requests.buffer.length + 1 := by
    rw [hbuffer, List.length_append, List.length_singleton]
  have hasked : (asked ++ [a]).length = asked.length + 1 := by
    rw [List.length_append, List.length_singleton]
  exact
    { history := by
        show l.log ++ l.worker.inHand ++ requests.buffer = _
        rw [hbuffer, ← List.append_assoc, h.history]
      requests_capacity := hcap.trans h.requests_capacity
      replies_capacity := h.replies_capacity
      asked_le := by rw [hasked]; exact hle
      replies_closed := h.replies_closed
      got_le := Nat.le_trans h.got_le (by rw [hasked]; exact Nat.le_succ _)
      pending := fun hin => by
        have heq := h.pending hin
        show got + l.replies.buffer.length + l.worker.busy + requests.buffer.length = _
        rw [hasked, hlen]
        omega
      ended := fun hend => by
        refine Or.inl ((h.ended hend).resolve_right fun hr => ?_)
        rw [hopen] at hr
        cases hr.1
      returns := h.returns }

theorem Inv.collect (h : Inv answer capacity asked got l) (hlt : got < asked.length)
    {o : Option ε} (hc : l.collect = some (o, l')) : Inv answer capacity asked (got + 1) l' := by
  obtain ⟨replies, hr, rfl⟩ := collect_eq hc
  cases o with
  | some e =>
    obtain ⟨hbuffer, hcap, hshut⟩ := Channel.of_receive_some hr
    have hlen : l.replies.buffer.length = replies.buffer.length + 1 := by
      rw [hbuffer, List.length_cons]
    have hgot := h.got_le
    exact
      { h with
        replies_capacity := hcap.trans h.replies_capacity
        replies_closed := by
          rw [hshut]
          exact h.replies_closed
        got_le := by
          show got + 1 + replies.buffer.length ≤ _
          omega
        pending := fun hin => by
          have heq := h.pending hin
          show got + 1 + replies.buffer.length + l.worker.busy + l.requests.buffer.length = _
          omega }
  | none =>
    obtain ⟨hempty, hclosed, rfl⟩ := Channel.of_receive_none hr
    have hdone : l.worker = .done := h.replies_closed.mp hclosed
    exact
      { h with
        got_le := by
          rw [hempty]
          exact hlt
        pending := fun hin => by
          rw [hdone] at hin
          cases hin }

theorem Inv.shut (h : Inv answer capacity asked got l) (hs : l.shut = some l') :
    Inv answer capacity asked got l' := by
  obtain ⟨requests, hc, rfl⟩ := shut_eq hs
  obtain ⟨hbuffer, hcap, hshut⟩ := Channel.of_close hc
  exact
    { h with
      history := by
        rw [hbuffer]
        exact h.history
      requests_capacity := hcap.trans h.requests_capacity
      pending := fun hin => by
        have heq := h.pending hin
        rw [← hbuffer] at heq
        exact heq
      ended := fun hend => (h.ended hend).imp_right fun hr => ⟨hshut, hbuffer.trans hr.2⟩ }

/-! ## Nothing blocks -/

theorem Inv.exists_ask (h : Inv answer capacity asked got l) (hle : asked.length < capacity)
    (hopen : l.requests.closed = false) (a : α) : ∃ l', l.ask a = some l' := by
  have hlen := congrArg List.length h.history
  simp only [List.length_append] at hlen
  have hroom : l.requests.buffer.length < l.requests.capacity := by
    rw [h.requests_capacity]
    omega
  obtain ⟨requests, hs⟩ := Channel.exists_send hopen hroom a
  exact ⟨_, Option.map_eq_some_iff.mpr ⟨requests, hs, rfl⟩⟩

theorem exists_shut (hopen : l.requests.closed = false) : ∃ l', l.shut = some l' := by
  obtain ⟨requests, hc⟩ := Channel.exists_close hopen
  exact ⟨_, Option.map_eq_some_iff.mpr ⟨requests, hc, rfl⟩⟩

/-- A worker waits only for a request, and has ended otherwise. -/
theorem Inv.exists_step (h : Inv answer capacity asked got l) (hdone : l.worker ≠ .done)
    (hwaits : l.worker = .receiving → l.requests.buffer ≠ [] ∨ l.requests.closed = true) :
    ∃ a l', l.step answer a = some l' := by
  have hopen : l.replies.closed = false := by
    rw [← Bool.not_eq_true, h.replies_closed]
    exact hdone
  cases hw : l.worker with
  | receiving =>
    obtain ⟨o, requests, hr⟩ := Channel.exists_receive (hwaits hw)
    cases o with
    | some a => exact ⟨.take, _, by simp only [Line.step, hw, hr]; rfl⟩
    | none => exact ⟨.take, _, by simp only [Line.step, hw, hr]; rfl⟩
  | working a => exact ⟨.work, _, by simp only [Line.step, hw]; rfl⟩
  | sending e goesOn =>
    have heq := h.pending (by rw [hw]; rfl)
    have hbusy : l.worker.busy = 1 := by rw [hw]; rfl
    have hle := h.asked_le
    have hroom : l.replies.buffer.length < l.replies.capacity := by
      rw [h.replies_capacity]
      omega
    obtain ⟨replies, hs⟩ := Channel.exists_send hopen hroom e
    exact ⟨.reply, _, by simp only [Line.step, hw, hs, Option.map_some]; rfl⟩
  | closing =>
    obtain ⟨replies, hc⟩ := Channel.exists_close hopen
    exact ⟨.close, _, by simp only [Line.step, hw, hc, Option.map_some]; rfl⟩
  | done => exact absurd hw hdone

/-- Where a client waits for an answer there is one, or the worker can move on to it. -/
theorem Inv.exists_collect (h : Inv answer capacity asked got l) (hlt : got < asked.length)
    (hstuck : ∀ a, l.step answer a = none) : ∃ o l', l.collect = some (o, l') := by
  have hreply : l.replies.buffer ≠ [] ∨ l.replies.closed = true := by
    by_cases hdone : l.worker = .done
    · exact Or.inr (h.replies_closed.mpr hdone)
    · by_cases hwaits : l.worker = .receiving → l.requests.buffer ≠ [] ∨ l.requests.closed = true
      · obtain ⟨a, l', hs⟩ := h.exists_step hdone hwaits
        rw [hstuck a] at hs
        cases hs
      · obtain ⟨hw, hempty⟩ := Classical.not_imp.mp hwaits
        rw [not_or, not_not] at hempty
        have heq := h.pending (by rw [hw]; rfl)
        rw [hw, hempty.1] at heq
        refine Or.inl fun hnil => ?_
        rw [hnil] at heq
        simp only [Worker.busy, List.length_nil] at heq
        omega
  obtain ⟨o, replies, hr⟩ := Channel.exists_receive hreply
  exact ⟨o, _, Option.map_eq_some_iff.mpr ⟨(o, replies), hr, rfl⟩⟩

/-- Behind the last request a worker that cannot move has ended. -/
theorem Inv.done_of_stuck (h : Inv answer capacity asked got l)
    (hclosed : l.requests.closed = true) (hstuck : ∀ a, l.step answer a = none) :
    l.worker = .done := by
  by_contra hdone
  obtain ⟨a, l', hs⟩ := h.exists_step hdone fun _ => Or.inr hclosed
  rw [hstuck a] at hs
  cases hs

/-- A worker that never leaves its loop by itself has worked on every request when it ends. -/
theorem Inv.log_eq_of_done (h : Inv answer capacity asked got l) (hdone : l.worker = .done)
    (hstays : ∀ a, (answer a).2 = true) : l.log = asked := by
  have hend : l.worker.inLoop = false := by rw [hdone]; rfl
  have hempty : l.requests.buffer = [] := by
    rcases h.ended hend with hr | hr
    · obtain ⟨a, -, hfalse⟩ := hr
      rw [hstays a] at hfalse
      cases hfalse
    · exact hr.2
  have hhistory := h.history
  rw [hdone, hempty] at hhistory
  simpa [Worker.inHand] using hhistory

/-! ## What was worked on -/

/-- The worker stayed behind every answer but perhaps the last one. -/
def Trail (answer : α → ε × Bool) (l : Line α ε) : Prop :=
  ∃ front last, l.log = front ++ last ∧ (∀ a ∈ front, (answer a).2 = true) ∧
    match l.worker with
    | .receiving | .working _ => last = []
    | .sending _ goesOn => ∃ a, last = [a] ∧ (answer a).2 = goesOn
    | .closing | .done => last = [] ∨ ∃ a, last = [a] ∧ (answer a).2 = false

theorem trail_make (answer : α → ε × Bool) (capacity : Nat) :
    Trail answer (make capacity) :=
  ⟨[], [], rfl, fun _ ha => absurd ha List.not_mem_nil, rfl⟩

theorem Trail.step (h : Trail answer l) {a : LineAction} (hs : l.step answer a = some l') :
    Trail answer l' := by
  obtain ⟨front, last, hlog, hfront, hlast⟩ := h
  cases moves_of_step hs with
  | takes hw hr =>
    rw [hw] at hlast
    exact ⟨front, last, hlog, hfront, hlast⟩
  | leaves hw hr =>
    rw [hw] at hlast
    exact ⟨front, last, hlog, hfront, Or.inl hlast⟩
  | @works b hw =>
    rw [hw] at hlast
    refine ⟨front, [b], ?_, hfront, b, rfl, rfl⟩
    show l.log ++ [b] = _
    rw [hlog, hlast, List.append_nil]
  | replies hw hr =>
    rw [hw] at hlast
    obtain ⟨b, rfl, hb⟩ := hlast
    refine ⟨front ++ [b], [], by rw [List.append_nil]; exact hlog, fun c hc => ?_, rfl⟩
    rcases List.mem_append.mp hc with hc | hc
    · exact hfront c hc
    · rw [List.mem_singleton.mp hc]
      exact hb
  | returns hw hr =>
    rw [hw] at hlast
    exact ⟨front, last, hlog, hfront, Or.inr hlast⟩
  | closes hw hc =>
    rw [hw] at hlast
    exact ⟨front, last, hlog, hfront, hlast⟩

theorem Trail.ask (h : Trail answer l) {a : α} (ha : l.ask a = some l') : Trail answer l' := by
  obtain ⟨requests, -, rfl⟩ := ask_eq ha
  exact h

theorem Trail.collect (h : Trail answer l) {o : Option ε} (hc : l.collect = some (o, l')) :
    Trail answer l' := by
  obtain ⟨replies, -, rfl⟩ := collect_eq hc
  exact h

theorem Trail.shut (h : Trail answer l) (hs : l.shut = some l') : Trail answer l' := by
  obtain ⟨requests, -, rfl⟩ := shut_eq hs
  exact h

/-- A worker that has ended has worked on the requests up to the first answer behind which it
leaves its loop, or on all of them. -/
theorem Inv.log_eq_take (h : Inv answer capacity asked got l) (htrail : Trail answer l)
    (hdone : l.worker = .done) :
    l.log = asked.take (asked.findIdx (fun a => !(answer a).2) + 1) := by
  obtain ⟨front, last, hlog, hfront, hlast⟩ := htrail
  have hhistory := h.history
  rw [hdone] at hlast hhistory
  simp only [Worker.inHand, List.append_nil] at hhistory
  have hstays : front.findIdx (fun a => !(answer a).2) = front.length :=
    List.findIdx_eq_length.mpr fun _ ha => by rw [hfront _ ha]; rfl
  rcases hlast with rfl | ⟨b, rfl, hb⟩
  · rw [List.append_nil] at hlog
    have hempty : l.requests.buffer = [] := by
      rcases h.ended (by rw [hdone]; rfl) with hr | hr
      · obtain ⟨a, ha, hfalse⟩ := hr
        rw [hlog] at ha
        rw [hfront a ha] at hfalse
        cases hfalse
      · exact hr.2
    rw [hempty, List.append_nil, hlog] at hhistory
    rw [hlog, ← hhistory, hstays, List.take_of_length_le (Nat.le_succ _)]
  · have hidx : (front ++ [b] ++ l.requests.buffer).findIdx (fun a => !(answer a).2) =
        front.length := by
      rw [List.append_assoc, List.findIdx_append, if_neg (by rw [hstays]; exact Nat.lt_irrefl _),
        List.singleton_append, List.findIdx_cons, hb]
      exact Nat.zero_add _
    have hlen : (front ++ [b]).length = front.length + 1 := List.length_append
    rw [← hhistory, hlog, hidx, ← hlen, List.take_left]

/-! ## How many steps are left -/

/-- The steps that the worker can still take, with the requests there are. -/
def left (l : Line α ε) : Nat :=
  3 * l.requests.buffer.length +
    match l.worker with
    | .receiving => 2
    | .working _ => 4
    | .sending _ _ => 3
    | .closing => 1
    | .done => 0

theorem left_step {a : LineAction} (hs : l.step answer a = some l') : l'.left < l.left := by
  cases moves_of_step hs with
  | takes hw hr =>
    obtain ⟨hbuffer, -⟩ := Channel.of_receive_some hr
    simp only [left, hw, hbuffer, List.length_cons]
    omega
  | leaves hw hr => simp only [left, hw]; omega
  | works hw => simp only [left, hw]; omega
  | replies hw hr => simp only [left, hw]; omega
  | returns hw hr => simp only [left, hw]; omega
  | closes hw hc => simp only [left, hw]; omega

theorem left_ask {a : α} (h : l.ask a = some l') : l'.left = l.left + 3 := by
  obtain ⟨requests, hs, rfl⟩ := ask_eq h
  obtain ⟨hbuffer, -⟩ := Channel.of_send hs
  simp only [left, hbuffer, List.length_append, List.length_singleton]
  omega

theorem left_collect {o : Option ε} (h : l.collect = some (o, l')) : l'.left = l.left := by
  obtain ⟨replies, -, rfl⟩ := collect_eq h
  rfl

theorem left_shut (h : l.shut = some l') : l'.left = l.left := by
  obtain ⟨requests, hc, rfl⟩ := shut_eq h
  simp only [left, (Channel.of_close hc).1]

end Line

end Go
