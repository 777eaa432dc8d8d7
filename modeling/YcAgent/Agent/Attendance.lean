import Mathlib.Data.List.Range
import Mathlib.Tactic.Ring
import YcAgent.Base.Strings

/-!
# The attendance of every day

With the M3 or the API mode the main goroutine attends in a loop without an end: it sleeps to the
next midnight of UTC and some minutes more that its address decides, and sends one request. No
sleep is shorter than asked for, everything may take longer.
-/
namespace YcAgent.Agent.Attendance

open Go

/-! ## The code -/

/-- Instants and durations in nanoseconds, instants since the zero time. -/
def minute : ℕ := 60 * 10 ^ 9

def day : ℕ := 24 * 60 * minute

/-- `Time.Truncate`. -/
def truncate (t d : ℕ) : ℕ := t - t % d

/-- `calDuration4Attendance`. A day of UTC has 24 hours, which `AddDate` adds. -/
def calDuration4Attendance (utc : ℕ) : ℕ × ℕ :=
  let target := truncate utc day + day
  (target, target - utc)

/-- `calDuration4Distribution`; the sum is a byte. -/
def calDuration4Distribution (ip : GoString) : ℕ :=
  let sum : Byte := ip.foldl (· + ·) 0
  (sum % 10).toNat * minute

/-- One call of `Attend`: the outbound address, and what its steps take beyond the durations that
they ask for. -/
structure Call where
  ip : GoString
  toSleep : ℕ
  overslept : ℕ
  lookup : ℕ
  overslept' : ℕ
  toSend : ℕ
  request : ℕ

def sleep4Attendance (c : Call) (now : ℕ) : ℕ :=
  now + c.toSleep + (calDuration4Attendance now).2 + c.overslept

/-- Where there is nothing to wait for, `Sleep` is not called. -/
def sleep4Distribution (c : Call) (now : ℕ) : ℕ :=
  let d := calDuration4Distribution c.ip
  if d = 0 then now + c.lookup else now + c.lookup + d + c.overslept'

/-- When the request is sent, and when `Attend` returns. -/
def attend (c : Call) (now : ℕ) : ℕ × ℕ :=
  let sent := sleep4Distribution c (sleep4Attendance c now) + c.toSend
  (sent, sent + c.request)

/-- The instants of the requests of the loop. -/
def attendances : ℕ → List Call → List ℕ
  | _, [] => []
  | now, c :: cs => (attend c now).1 :: attendances (attend c now).2 cs

/-! ## Days -/

def dayOf (t : ℕ) : ℕ := t / day

theorem day_pos : 0 < day := by decide

theorem calDuration4Distribution_lt (ip : GoString) :
    calDuration4Distribution ip < 10 * minute := by
  have hmod : (ip.foldl (· + ·) (0 : Byte) % 10).toNat < 10 := by
    rw [UInt8.toNat_mod]
    exact Nat.mod_lt _ (by decide)
  exact Nat.mul_lt_mul_of_pos_right hmod (by decide)

theorem target_eq (now : ℕ) : (calDuration4Attendance now).1 = (dayOf now + 1) * day := by
  have hdiv := Nat.div_add_mod now day
  have htrunc : truncate now day = dayOf now * day := by
    rw [truncate, dayOf, Nat.mul_comm]
    omega
  change truncate now day + day = _
  rw [htrunc, Nat.succ_mul]

theorem now_lt_target (now : ℕ) : now < (calDuration4Attendance now).1 := by
  rw [target_eq, Nat.mul_comm]
  exact Nat.lt_mul_div_succ now day_pos

theorem add_sub_eq_target (now : ℕ) :
    now + (calDuration4Attendance now).2 = (calDuration4Attendance now).1 :=
  Nat.add_sub_cancel' (now_lt_target now).le

namespace Call

variable (c : Call)

/-- How long after midnight the request is sent. -/
def late : ℕ :=
  c.toSleep + c.overslept + c.lookup +
    (if calDuration4Distribution c.ip = 0 then 0
      else calDuration4Distribution c.ip + c.overslept') + c.toSend

theorem sent_eq (now : ℕ) : (attend c now).1 = (dayOf now + 1) * day + c.late := by
  rw [← target_eq, ← add_sub_eq_target]
  simp only [attend, sleep4Distribution, sleep4Attendance, late]
  split
  · omega
  · omega

theorem dayOf_sent (now : ℕ) : dayOf (attend c now).1 = dayOf now + 1 + c.late / day := by
  rw [sent_eq, dayOf, Nat.add_comm, Nat.add_mul_div_right _ _ day_pos, Nat.add_comm]

theorem dayOf_return (now : ℕ) :
    dayOf (attend c now).2 = dayOf now + 1 + (c.late + c.request) / day := by
  change dayOf ((attend c now).1 + c.request) = _
  rw [sent_eq, dayOf, Nat.add_assoc, Nat.add_comm, Nat.add_mul_div_right _ _ day_pos, Nat.add_comm]

end Call

/-! ## The loop -/

/-- The days on which the loop attends. -/
def days (now : ℕ) (cs : List Call) : List ℕ := (attendances now cs).map dayOf

theorem days_cons (now : ℕ) (c : Call) (cs : List Call) :
    days now (c :: cs) = dayOf (attend c now).1 :: days (attend c now).2 cs := rfl

theorem dayOf_le_return (c : Call) (now : ℕ) : dayOf (attend c now).1 ≤ dayOf (attend c now).2 :=
  Nat.div_le_div_right (Nat.le_add_right _ _)

theorem dayOf_lt_sent (c : Call) (now : ℕ) : dayOf now < dayOf (attend c now).1 := by
  rw [c.dayOf_sent]
  exact Nat.lt_of_lt_of_le (Nat.lt_succ_self _) (Nat.le_add_right _ _)

theorem lt_of_mem_days {now d : ℕ} {cs : List Call} (hd : d ∈ days now cs) : dayOf now < d := by
  induction cs generalizing now with
  | nil => cases hd
  | cons c cs ih =>
    rcases List.mem_cons.mp hd with rfl | hd
    · exact dayOf_lt_sent c now
    · exact (dayOf_lt_sent c now).trans_le (dayOf_le_return c now) |>.trans (ih hd)

theorem days_pairwise (now : ℕ) (cs : List Call) : (days now cs).Pairwise (· < ·) := by
  induction cs generalizing now with
  | nil => exact List.Pairwise.nil
  | cons c cs ih =>
    refine List.pairwise_cons.mpr ⟨fun d hd => ?_, ih _⟩
    exact (dayOf_le_return c now).trans_lt (lt_of_mem_days hd)

/-- Every call is in time for the next midnight, the last one if its request is. -/
def InTime : List Call → Prop
  | [] => True
  | [c] => c.late < day
  | c :: cs => c.late + c.request < day ∧ InTime cs

theorem head_days {now d : ℕ} {c : Call} {cs : List Call}
    (h : days now (c :: cs) = List.range' d (cs.length + 1)) : dayOf (attend c now).1 = d := by
  rw [List.range'_succ, days_cons] at h
  exact (List.cons.inj h).1

theorem days_eq_iff (now : ℕ) (cs : List Call) :
    days now cs = List.range' (dayOf now + 1) cs.length ↔ InTime cs := by
  induction cs generalizing now with
  | nil => exact iff_of_true rfl trivial
  | cons c cs ih =>
    rw [days_cons, List.length_cons, List.range'_succ, List.cons.injEq, c.dayOf_sent]
    have hsent : dayOf now + 1 + c.late / day = dayOf now + 1 ↔ c.late < day := by
      rw [Nat.add_eq_left, Nat.div_eq_zero_iff_lt day_pos]
    cases cs with
    | nil => exact (and_iff_left rfl).trans hsent
    | cons c' cs =>
      have hreturn : dayOf (attend c now).2 = dayOf now + 1 ↔ c.late + c.request < day := by
        rw [c.dayOf_return, Nat.add_eq_left, Nat.div_eq_zero_iff_lt day_pos]
      constructor
      · rintro ⟨-, htail⟩
        -- The request of the next call is behind the day of the return.
        have hlt := dayOf_lt_sent c' (attend c now).2
        rw [head_days htail] at hlt
        have hle := (dayOf_lt_sent c now).trans_le (dayOf_le_return c now)
        have hday : dayOf (attend c now).2 = dayOf now + 1 := by omega
        refine ⟨hreturn.mp hday, (ih (attend c now).2).mp ?_⟩
        rw [hday]
        exact htail
      · rintro ⟨htime, hrest⟩
        have hday := hreturn.mpr htime
        refine ⟨hsent.mpr (by omega), ?_⟩
        rw [← hday]
        exact (ih (attend c now).2).mpr hrest

/-- The ten minutes of the distribution leave the rest of the day for everything else. -/
theorem inTime_of_quick {cs : List Call} (h : ∀ c ∈ cs,
    c.toSleep + c.overslept + c.lookup + c.overslept' + c.toSend + c.request + 10 * minute ≤ day) :
    InTime cs := by
  have hquick : ∀ c ∈ cs, c.late + c.request < day := by
    intro c hc
    have hall := h c hc
    have hmin := calDuration4Distribution_lt c.ip
    unfold Call.late
    split
    · have hpos : 0 < minute := by decide
      omega
    · omega
  induction cs with
  | nil => trivial
  | cons c cs ih =>
    obtain ⟨hc, hcs⟩ := List.forall_mem_cons.mp hquick
    cases cs with
    | nil => exact Nat.lt_of_le_of_lt (Nat.le_add_right _ _) hc
    | cons c' cs => exact ⟨hc, ih (List.forall_mem_cons.mp h).2 hcs⟩

/-- No day has two requests. Every day from the next one on has its own exactly where no call but
the last has taken until midnight again, and the last has sent by then. -/
theorem attendances_daily (now : ℕ) (cs : List Call) :
    (days now cs).Pairwise (· < ·) ∧
      (days now cs = List.range' (dayOf now + 1) cs.length ↔ InTime cs) :=
  ⟨days_pairwise now cs, days_eq_iff now cs⟩

end YcAgent.Agent.Attendance
