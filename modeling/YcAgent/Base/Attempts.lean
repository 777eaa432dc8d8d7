import YcAgent.Base.Handle

/-!
# Attempts that write to one file

One way after the other is tried until one succeeds, and each adds what it prints to the file.
A file of sections has a header in front of each of them; where its text stands is kept apart,
so the text of a section is what is there and not what looks like it.
-/
namespace Go

variable {α : Type*}

structure Attempt (α : Type*) where
  output : List α
  ok : Bool

namespace Attempt

/-- What is in the file behind a chain of attempts. -/
def written : List (Attempt α) → List α
  | [] => []
  | a :: attempts => a.output ++ if a.ok then [] else written attempts

/-- The first attempt that succeeds. -/
def firstOk (attempts : List (Attempt α)) : Option (Attempt α) := attempts.find? (·.ok)

/-- The attempts before the first one that succeeds. -/
def failed (attempts : List (Attempt α)) : List (Attempt α) := attempts.takeWhile (!·.ok)

/-- Where an attempt succeeds, those before it print nothing. -/
def FailsSilently (attempts : List (Attempt α)) : Prop :=
  firstOk attempts ≠ none → ∀ a ∈ failed attempts, a.output = []

theorem written_cons_ok {a : Attempt α} (h : a.ok = true) (attempts : List (Attempt α)) :
    written (a :: attempts) = a.output := by
  rw [written, if_pos h, List.append_nil]

theorem written_cons_failed {a : Attempt α} (h : a.ok = false) (attempts : List (Attempt α)) :
    written (a :: attempts) = a.output ++ written attempts := by
  rw [written, if_neg (Bool.eq_false_iff.mp h)]

@[simp] theorem written_singleton (a : Attempt α) : written [a] = a.output := by
  rw [written, written, ite_self, List.append_nil]

/-- The output of the first success stands behind those of the failures. -/
theorem written_of_firstOk {attempts : List (Attempt α)} {a : Attempt α}
    (h : firstOk attempts = some a) :
    written attempts = (failed attempts).flatMap output ++ a.output := by
  induction attempts with
  | nil => cases h
  | cons b attempts ih =>
    cases hok : b.ok with
    | true =>
      have hhead : firstOk (b :: attempts) = some b := List.find?_cons_of_pos hok
      have hnone : failed (b :: attempts) = [] :=
        List.takeWhile_cons_of_neg (by rw [hok]; exact Bool.false_ne_true)
      rw [written_cons_ok hok, hnone, Option.some.inj (hhead.symm.trans h), List.flatMap_nil,
        List.nil_append]
    | false =>
      have htail : firstOk attempts = some a := by
        rw [← h]
        exact (List.find?_cons_of_neg (Bool.eq_false_iff.mp hok)).symm
      have hcons : failed (b :: attempts) = b :: failed attempts :=
        List.takeWhile_cons_of_pos (by rw [hok]; rfl)
      rw [written_cons_failed hok, ih htail, hcons, List.flatMap_cons, List.append_assoc]

/-- The first success is alone in the file if and only if the failures print nothing. -/
theorem written_eq_iff {attempts : List (Attempt α)} {a : Attempt α}
    (h : firstOk attempts = some a) :
    written attempts = a.output ↔ ∀ b ∈ failed attempts, b.output = [] := by
  rw [written_of_firstOk h, List.append_left_eq_self, List.flatMap_eq_nil_iff]

end Attempt

namespace Handle

/-- Whatever is written goes to the end. -/
def Appends (f f' : Handle α) (data : List α) : Prop :=
  f.AtEnd → f'.AtEnd ∧ f'.content = f.content ++ data

theorem Appends.refl (f : Handle α) : Appends f f [] :=
  fun hend => ⟨hend, (List.append_nil _).symm⟩

theorem appends_write [Zero α] (f : Handle α) (data : List α) : Appends f (f.write data) data :=
  fun hend => ⟨hend.write data, hend.content_write data⟩

theorem Appends.trans {f f' f'' : Handle α} {data data' : List α} (h : Appends f f' data)
    (h' : Appends f' f'' data') : Appends f f'' (data ++ data') := by
  intro hend
  obtain ⟨hend', hcontent⟩ := h hend
  obtain ⟨hend'', hcontent'⟩ := h' hend'
  exact ⟨hend'', by rw [hcontent', hcontent, List.append_assoc]⟩

end Handle

/-- Where the text of a section stands. -/
structure Span where
  start : Nat
  stop : Nat

def Span.text (s : Span) (content : List α) : List α := (content.take s.stop).drop s.start

theorem Span.text_append {s : Span} {content : List α} (h : s.stop ≤ content.length)
    (more : List α) : s.text (content ++ more) = s.text content := by
  rw [text, text, List.take_append_of_le_length h]

theorem Span.text_end (before body : List α) :
    Span.text ⟨before.length, (before ++ body).length⟩ (before ++ body) = body := by
  rw [text, List.take_length, List.drop_left]

/-- A file with its sections. -/
structure Sheet (α : Type*) where
  file : Handle α
  spans : List Span

namespace Sheet

def create : Sheet α := ⟨Handle.create, []⟩

/-- The texts of the sections. -/
def texts (s : Sheet α) : List (List α) := s.spans.map fun span => span.text s.file.content

/-- Every section ends in the file. -/
structure Inv (s : Sheet α) : Prop where
  atEnd : s.file.AtEnd
  stop_le : ∀ span ∈ s.spans, span.stop ≤ s.file.content.length

theorem inv_create : (create : Sheet α).Inv := ⟨Handle.atEnd_create, nofun⟩

/-- What is written to the file from `headed` to `file` is a section. -/
def close (s : Sheet α) (headed file : Handle α) : Sheet α :=
  ⟨file, s.spans ++ [⟨headed.offset, file.offset⟩]⟩

/-- More text leaves the sections as they are. -/
theorem texts_of_appends {s : Sheet α} {file : Handle α} {data : List α} (hs : s.Inv)
    (h : s.file.Appends file data) : (Sheet.mk file s.spans).Inv ∧
      (Sheet.mk file s.spans).texts = s.texts := by
  obtain ⟨hend, hcontent⟩ := h hs.atEnd
  refine ⟨⟨hend, fun span hspan => ?_⟩, List.map_congr_left fun span hspan => ?_⟩
  · have hstop := hs.stop_le span hspan
    simp only [hcontent, List.length_append]
    omega
  · simp only [hcontent]
    exact Span.text_append (hs.stop_le span hspan) data

theorem texts_close {s : Sheet α} {headed file : Handle α} {front body : List α} (hs : s.Inv)
    (hfront : s.file.Appends headed front) (hbody : headed.Appends file body) :
    (s.close headed file).Inv ∧ (s.close headed file).texts = s.texts ++ [body] := by
  obtain ⟨hheaded, hheader⟩ := hfront hs.atEnd
  obtain ⟨hfile, hcontent⟩ := hbody hheaded
  obtain ⟨hinv, htexts⟩ := texts_of_appends hs (hfront.trans hbody)
  constructor
  · refine ⟨hfile, fun span hspan => ?_⟩
    rcases List.mem_append.mp hspan with hspan | hspan
    · exact hinv.stop_le span hspan
    · rw [List.mem_singleton.mp hspan]
      exact Nat.le_of_eq hfile
  · have hlast : Span.text ⟨headed.offset, file.offset⟩ file.content = body := by
      rw [hheaded, hfile, hcontent]
      exact Span.text_end headed.content body
    rw [texts, close, List.map_append, List.map_singleton, hlast]
    exact congrArg (· ++ [body]) htexts

end Sheet

end Go
