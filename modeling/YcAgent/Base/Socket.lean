import Mathlib.Data.List.Basic
import YcAgent.Base.Loop

/-!
# Stream sockets

What a peer sends comes in segments of the network's choosing. A read takes what it
has room for from the first segment only, so the same bytes come in many ways, and a
loop over reads is right if it does the same for each of them. A write, too, takes only
as much of the bytes as it likes.
-/
namespace Socket

/-- How the stream goes on behind its last byte. -/
inductive Ending where
  | closed
  | failed
  deriving DecidableEq

structure Source (β : Type*) where
  segments : List (List β)
  ending : Ending
  nonempty : ∀ s ∈ segments, s ≠ []

inductive Got (β : Type*) where
  | data (bytes : List β)
  | ended (how : Ending)
  deriving DecidableEq

variable {β : Type*}

namespace Source

/-- All bytes of the stream. -/
def text (s : Source β) : List β := s.segments.flatten

/-- The stream of the bytes `t` that come one by one. -/
def single (t : List β) (ending : Ending) : Source β where
  segments := t.map fun b => [b]
  ending := ending
  nonempty := by
    intro s hs
    obtain ⟨b, -, rfl⟩ := List.mem_map.mp hs
    exact List.cons_ne_nil b []

/-- The stream of the bytes `t` that come together. -/
def whole (t : List β) (ending : Ending) : Source β where
  segments := if t.isEmpty then [] else [t]
  ending := ending
  nonempty := by
    intro s hs
    split at hs
    · cases hs
    · rename_i ht
      obtain rfl := List.mem_singleton.mp hs
      exact fun h => ht (List.isEmpty_iff.mpr h)

theorem text_single (t : List β) (e : Ending) : (single t e).text = t := by
  simp only [text, single, ← List.flatMap_def, List.flatMap_singleton']

theorem segments_eq_nil {s : Source β} (h : s.text = []) : s.segments = [] := by
  obtain ⟨segments, e, hne⟩ := s
  cases segments with
  | nil => rfl
  | cons seg rest =>
    have hseg := hne seg List.mem_cons_self
    simp only [text, List.flatten_cons, List.append_eq_nil_iff] at h
    exact absurd h.1 hseg

/-- A read into a buffer with room for `room` bytes; a read for none gets what a read at the
end of the stream gets. -/
def read (room : Nat) (s : Source β) : Got β × Source β :=
  match s with
  | ⟨[], e, h⟩ => (.ended (if room = 0 then .closed else e), ⟨[], e, h⟩)
  | ⟨seg :: rest, e, h⟩ =>
    if room = 0 then (.ended .closed, ⟨seg :: rest, e, h⟩)
    else if hlen : seg.length ≤ room then
      (.data seg, ⟨rest, e, fun t ht => h t (List.mem_cons_of_mem seg ht)⟩)
    else
      (.data (seg.take room), ⟨seg.drop room :: rest, e, by
        intro t ht
        rcases List.mem_cons.mp ht with rfl | ht
        · intro hnil
          have := List.drop_eq_nil_iff.mp hnil
          omega
        · exact h t (List.mem_cons_of_mem seg ht)⟩)

/-- What a read that gets bytes has done. -/
structure Took (room : Nat) (s : Source β) (bytes : List β) (t : Source β) : Prop where
  read : s.read room = (.data bytes, t)
  ne_nil : bytes ≠ []
  length_le : bytes.length ≤ room
  text : bytes ++ t.text = s.text
  ending : t.ending = s.ending

theorem read_of_text_nil (room : Nat) (hroom : 0 < room) {s : Source β} (h : s.text = []) :
    s.read room = (.ended s.ending, s) := by
  have hseg := segments_eq_nil h
  obtain ⟨segments, e, hne⟩ := s
  cases hseg
  simp only [read, Nat.ne_of_gt hroom, if_false]

theorem exists_took (room : Nat) (hroom : 0 < room) {s : Source β} (h : s.text ≠ []) :
    ∃ bytes t, Took room s bytes t := by
  obtain ⟨segments, e, hne⟩ := s
  cases segments with
  | nil => exact absurd rfl h
  | cons seg rest =>
    have hseg := hne seg List.mem_cons_self
    have hroom' : room ≠ 0 := Nat.ne_of_gt hroom
    by_cases hlen : seg.length ≤ room
    · refine ⟨seg, ⟨rest, e, fun t ht => hne t (List.mem_cons_of_mem seg ht)⟩, ?_⟩
      refine ⟨?_, hseg, hlen, ?_, rfl⟩
      · simp only [read, if_neg hroom', dif_pos hlen]
      · simp only [text, List.flatten_cons]
    · have hdrop : ∀ t ∈ seg.drop room :: rest, t ≠ [] := by
        intro t ht
        rcases List.mem_cons.mp ht with rfl | ht
        · intro hnil
          have := List.drop_eq_nil_iff.mp hnil
          omega
        · exact hne t (List.mem_cons_of_mem seg ht)
      refine ⟨seg.take room, ⟨seg.drop room :: rest, e, hdrop⟩, ?_, ?_, ?_, ?_, rfl⟩
      · simp only [read, if_neg hroom', dif_neg hlen]
      · intro hnil
        rcases List.take_eq_nil_iff.mp hnil with hzero | hnil
        · exact hroom' hzero
        · exact hseg hnil
      · exact List.length_take_le room seg
      · simp only [text, List.flatten_cons]
        rw [← List.append_assoc, List.take_append_drop]

/-- A read that has room for a part of what comes together. -/
theorem read_whole_append {room : Nat} (hroom : 0 < room) {b t : List β} (hb : b.length = room)
    (ht : t ≠ []) (e : Ending) :
    (whole (b ++ t) e).read room = (.data b, whole t e) := by
  have hlong : ¬ (b ++ t).length ≤ room := by
    have := List.length_pos_iff.mpr ht
    rw [List.length_append]
    omega
  have hne : (b ++ t).isEmpty = false := by
    rw [List.isEmpty_eq_false_iff]
    exact List.append_ne_nil_of_right_ne_nil b ht
  have hne' : t.isEmpty = false := List.isEmpty_eq_false_iff.mpr ht
  simp only [whole, hne, hne', Bool.false_eq_true, if_false, read, Nat.ne_of_gt hroom,
    dif_neg hlong, List.take_left' hb, List.drop_left' hb]

theorem Took.text_length_lt {room : Nat} {s t : Source β} {bytes : List β}
    (h : Took room s bytes t) :
    t.text.length < s.text.length := by
  have hpos := List.length_pos_iff.mpr h.ne_nil
  have hlen := congrArg List.length h.text
  rw [List.length_append] at hlen
  omega

theorem Took.text_ne_nil {room : Nat} {s t : Source β} {bytes : List β} (h : Took room s bytes t) :
    s.text ≠ [] := by
  intro hnil
  have hlt := h.text_length_lt
  rw [hnil] at hlt
  cases hlt

/-- What is read of one stream is a prefix of it. -/
theorem Took.isPrefix {room : Nat} {s t : Source β} {bytes : List β} (h : Took room s bytes t) :
    bytes <+: s.text := ⟨t.text, h.text⟩

theorem took_single {room : Nat} (hroom : 0 < room) (b : β) (t : List β) (e : Ending) :
    Took room (single (b :: t) e) [b] (single t e) where
  read := by
    have hlen : [b].length ≤ room := hroom
    simp only [read, single, List.map_cons, if_neg (Nat.ne_of_gt hroom), dif_pos hlen]
  ne_nil := List.cons_ne_nil b []
  length_le := hroom
  text := by rw [text_single, text_single, List.singleton_append]
  ending := rfl

/-! ### One stream behind another -/

/-- The segments of `s`, and behind them those of `t`. -/
def append (s t : Source β) : Source β where
  segments := s.segments ++ t.segments
  ending := t.ending
  nonempty := by
    intro seg hseg
    rcases List.mem_append.mp hseg with hseg | hseg
    · exact s.nonempty seg hseg
    · exact t.nonempty seg hseg

theorem text_append (s t : Source β) : (s.append t).text = s.text ++ t.text :=
  List.flatten_append

/-- No read takes bytes of both. -/
theorem Took.append {room : Nat} {s s' : Source β} {bytes : List β} (h : Took room s bytes s')
    (t : Source β) : Took room (s.append t) bytes (s'.append t) where
  read := by
    have hread := h.read
    have hne := h.text_ne_nil
    obtain ⟨segments, e, hseg⟩ := s
    cases segments with
    | nil => exact absurd rfl hne
    | cons seg rest =>
      have hroom : room ≠ 0 := by
        have := h.length_le
        have := List.length_pos_iff.mpr h.ne_nil
        omega
      simp only [Source.read, if_neg hroom] at hread
      simp only [Source.append, Source.read, List.cons_append, if_neg hroom]
      by_cases hlen : seg.length ≤ room
      · rw [dif_pos hlen] at hread
        obtain ⟨hbytes, hs'⟩ := Prod.mk.inj hread
        subst hs'
        rw [dif_pos hlen, hbytes]
      · rw [dif_neg hlen] at hread
        obtain ⟨hbytes, hs'⟩ := Prod.mk.inj hread
        subst hs'
        rw [dif_neg hlen, hbytes]
        rfl
  ne_nil := h.ne_nil
  length_le := h.length_le
  text := by rw [text_append, text_append, ← List.append_assoc, h.text]
  ending := rfl

theorem append_of_text_nil {s : Source β} (h : s.text = []) (t : Source β) : s.append t = t := by
  have hseg := segments_eq_nil h
  obtain ⟨segments, e, hne⟩ := s
  cases hseg
  rfl

end Source

/-! ## Reading to the end -/

/-- One turn of a loop that copies what it reads to `out` until nothing comes. -/
def drainTurn (room : Nat) (st : List β × Source β) :
    (List β × Source β) ⊕ (List β × Source β) :=
  match st.2.read room with
  | (.data bytes, s) => .inr (st.1 ++ bytes, s)
  | (.ended _, s) => .inl (st.1, s)

/-- Such a loop copies the whole stream, in whatever segments it comes. -/
theorem run_drainTurn (room : Nat) (hroom : 0 < room) (out : List β) (s : Source β) :
    ∃ t, t.text = [] ∧
      Loop.run (drainTurn room) (s.text.length + 1) (out, s) = some (out ++ s.text, t) := by
  have hturn : ∀ st : List β × Source β, st.1 ++ st.2.text = out ++ s.text →
      (∃ r, drainTurn room st = .inl r ∧ r.2.text = [] ∧ r.1 = out ++ s.text) ∨
        ∃ t, drainTurn room st = .inr t ∧ t.1 ++ t.2.text = out ++ s.text ∧
          t.2.text.length < st.2.text.length := by
    rintro ⟨acc, u⟩ hI
    by_cases hu : u.text = []
    · refine Or.inl ⟨(acc, u), ?_, hu, ?_⟩
      · simp only [drainTurn, Source.read_of_text_nil room hroom hu]
      · simpa only [hu, List.append_nil] using hI
    · obtain ⟨bytes, v, hv⟩ := Source.exists_took room hroom hu
      refine Or.inr ⟨(acc ++ bytes, v), ?_, ?_, hv.text_length_lt⟩
      · simp only [drainTurn, hv.read]
      · simp only [List.append_assoc, hv.text]
        exact hI
  obtain ⟨⟨acc, t⟩, hr, ht, hout⟩ :=
    Loop.run_of_variant (fun st : List β × Source β => st.2.text.length) hturn
      (rfl : (out, s).1 ++ (out, s).2.text = out ++ s.text)
  obtain rfl : acc = out ++ s.text := hout
  exact ⟨t, ht, hr⟩

/-! ## Writing -/

/-- What was taken so far, and how much each of the next writes takes at most: `none` is an
error. Writes behind those take everything. -/
structure Sink (β : Type*) where
  wire : List β
  takes : List (Option Nat)

namespace Sink

/-- The number of bytes taken, or `none`. -/
def write (bytes : List β) (s : Sink β) : Option Nat × Sink β :=
  match s.takes with
  | [] => (some bytes.length, ⟨s.wire ++ bytes, []⟩)
  | none :: later => (none, ⟨s.wire, later⟩)
  | some n :: later => (some (min n bytes.length), ⟨s.wire ++ bytes.take n, later⟩)

/-- The next write takes all of `bytes`. -/
def TakesAll (bytes : List β) (s : Sink β) : Prop :=
  ∀ t ∈ s.takes.head?, ∃ n ∈ t, bytes.length ≤ n

theorem write_of_takesAll {bytes : List β} {s : Sink β} (h : TakesAll bytes s) :
    s.write bytes = (some bytes.length, ⟨s.wire ++ bytes, s.takes.tail⟩) := by
  obtain ⟨wire, takes⟩ := s
  cases takes with
  | nil => rfl
  | cons t later =>
    obtain ⟨n, hn, hlen⟩ := h t rfl
    obtain rfl : t = some n := hn
    simp only [write, Nat.min_eq_right hlen, List.take_of_length_le hlen, List.tail_cons]

/-- A write leaves what was written before, and a part of its bytes behind it. -/
theorem write_cases (bytes : List β) (s : Sink β) :
    (∃ t, s.write bytes = (none, t) ∧ t.wire = s.wire ∧ t.takes = s.takes.tail) ∨
      ∃ n t, s.write bytes = (some n, t) ∧ n ≤ bytes.length ∧
        t.wire = s.wire ++ bytes.take n ∧ t.takes = s.takes.tail ∧
        (n = bytes.length ↔ TakesAll bytes s) := by
  obtain ⟨wire, takes⟩ := s
  cases takes with
  | nil =>
    refine Or.inr ⟨bytes.length, _, rfl, Nat.le_refl _, ?_, rfl, iff_of_true rfl ?_⟩
    · rw [List.take_length]
    · rintro t ⟨⟩
  | cons t later =>
    cases t with
    | none => exact Or.inl ⟨_, rfl, rfl, rfl⟩
    | some n =>
      refine Or.inr ⟨min n bytes.length, _, rfl, Nat.min_le_right _ _, ?_, rfl, ?_⟩
      · rw [List.take_eq_take_min]
      · constructor
        · rintro h t ⟨⟩
          exact ⟨n, rfl, by omega⟩
        · intro h
          obtain ⟨m, hm, hlen⟩ := h (some n) rfl
          obtain rfl : n = m := Option.some.inj hm
          exact Nat.min_eq_right hlen

/-- None of the writes fails or takes nothing. -/
def Willing (s : Sink β) : Prop := ∀ t ∈ s.takes, ∃ n ∈ t, 0 < n

theorem exists_write_of_willing {bytes : List β} (hne : bytes ≠ []) {s : Sink β}
    (hs : Willing s) :
    ∃ n t, s.write bytes = (some n, t) ∧ 0 < n ∧ n ≤ bytes.length ∧
      t.wire = s.wire ++ bytes.take n ∧ Willing t := by
  obtain ⟨wire, takes⟩ := s
  have hpos := List.length_pos_iff.mpr hne
  cases takes with
  | nil =>
    exact ⟨bytes.length, _, rfl, hpos, Nat.le_refl _, by rw [List.take_length], hs⟩
  | cons t later =>
    obtain ⟨m, hm, hm0⟩ := hs t List.mem_cons_self
    obtain rfl : t = some m := hm
    refine ⟨min m bytes.length, _, rfl, by omega, Nat.min_le_right _ _, ?_, ?_⟩
    · rw [List.take_eq_take_min]
    · exact fun u hu => hs u (List.mem_cons_of_mem _ hu)

end Sink

end Socket
