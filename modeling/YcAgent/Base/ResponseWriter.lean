import Mathlib.Logic.Function.Basic
import YcAgent.Base.RangeMap
import YcAgent.Base.Strconv

/-!
# `http.ResponseWriter`

What a handler hands over: a status with the header of that moment, and the body bytes
that are accepted. A write is refused when the status has no body and when it goes
beyond the declared `Content-Length`. The server keeps back the fields that a message
without a body has no use for, and adds some of its own where the handler set none. How a
body is framed, and the fields of the connection, are left out.
-/
namespace Go

/-- The values of each key, in their order. -/
abbrev Header := GoString → List GoString

namespace Header

def empty : Header := fun _ => []

def add (h : Header) (key value : GoString) : Header :=
  Function.update h key (h key ++ [value])

/-- `Header.Get`. -/
def get (h : Header) (key : GoString) : GoString := (h key).headD []

end Header

def contentLengthKey : GoString := str "Content-Length"
def contentTypeKey : GoString := str "Content-Type"
def contentEncodingKey : GoString := str "Content-Encoding"
def transferEncodingKey : GoString := str "Transfer-Encoding"
def dateKey : GoString := str "Date"

/-- The first value of `Content-Length`, when it is a number from 0 on. -/
def Header.contentLength (h : Header) : Option Nat :=
  (h contentLengthKey).head?.bind fun v =>
    (atoi v).bind fun n => if 0 ≤ n then some n.toNat else none

def bodyAllowedForStatus (status : Nat) : Bool :=
  !(decide (100 ≤ status ∧ status ≤ 199) || status == 204 || status == 304)

def suppressedHeaders (status : Nat) : List GoString :=
  if status = 304 then [contentTypeKey, contentLengthKey, transferEncodingKey]
  else if bodyAllowedForStatus status = false then [contentLengthKey, transferEncodingKey]
  else []

def isTokenByte (b : Byte) : Bool :=
  (48 ≤ b ∧ b ≤ 57) || (65 ≤ b ∧ b ≤ 90) || (97 ≤ b ∧ b ≤ 122) ||
    (str "!#$%&'*+-.^_\x60|~").contains b

def validHeaderFieldName (key : GoString) : Bool := key ≠ [] && key.all isTokenByte

/-- A field that does not go to the client. -/
def KeptBack (status : Nat) (key : GoString) : Prop :=
  validHeaderFieldName key = false ∨ key ∈ suppressedHeaders status

instance (status : Nat) (key : GoString) : Decidable (KeptBack status key) :=
  inferInstanceAs (Decidable (_ ∨ _))

/-- The fields that go to the client. -/
def Header.passed (h : Header) (status : Nat) : Header := fun key =>
  if KeptBack status key then [] else h key

theorem not_keptBack {status : Nat} (hstatus : bodyAllowedForStatus status = true)
    {key : GoString} (hkey : validHeaderFieldName key = true) : ¬ KeptBack status key := by
  have hne : status ≠ 304 := by
    rintro rfl
    exact Bool.noConfusion hstatus
  rintro (hinvalid | hmem)
  · exact Bool.noConfusion (hkey.symm.trans hinvalid)
  · rw [suppressedHeaders, if_neg hne, if_neg (by rw [hstatus]; exact Bool.noConfusion)] at hmem
    exact absurd hmem List.not_mem_nil

/-- A status without a body has no declared length. -/
theorem keptBack_contentLength {status : Nat} (hstatus : bodyAllowedForStatus status = false) :
    KeptBack status contentLengthKey := by
  refine Or.inr ?_
  unfold suppressedHeaders
  split
  · exact List.mem_cons_of_mem _ List.mem_cons_self
  · exact List.mem_cons_self

theorem Header.passed_of_valid {status : Nat} (hstatus : bodyAllowedForStatus status = true)
    {key : GoString} (hkey : validHeaderFieldName key = true) (h : Header) :
    h.passed status key = h key :=
  if_neg (not_keptBack hstatus hkey)

def errBodyNotAllowed : GoString :=
  str "http: request method or response status code does not allow body"

def errContentLength : GoString := str "http: wrote more than the declared Content-Length"

structure ResponseWriter where
  isHead : Bool
  header : Header
  sent : Option (Nat × Header)
  written : Nat
  accepted : GoString

namespace ResponseWriter

def new (isHead : Bool) : ResponseWriter := ⟨isHead, .empty, none, 0, []⟩

def addHeader (w : ResponseWriter) (key value : GoString) : ResponseWriter :=
  { w with header := w.header.add key value }

/-- `WriteHeader`; none is the panic on a code that is no status. An informational status
other than 101 goes out by itself and leaves the writer as it is. -/
def writeHeader (w : ResponseWriter) (code : Nat) : Option ResponseWriter :=
  if w.sent.isSome then some w
  else if code < 100 ∨ 999 < code then none
  else if code ≤ 199 ∧ code ≠ 101 then some w
  else some { w with sent := some (code, w.header.passed code) }

/-- `Write`, with its error. -/
def write (w : ResponseWriter) (data : GoString) : ResponseWriter × Option GoString :=
  let (status, header) := w.sent.getD (200, w.header.passed 200)
  let w := { w with sent := some (status, header) }
  if data = [] then (w, none)
  else if bodyAllowedForStatus status = false then (w, some errBodyNotAllowed)
  else
    let w := { w with written := w.written + data.length }
    if header.contentLength.any fun n => n < w.written then (w, some errContentLength)
    else ({ w with accepted := w.accepted ++ data }, none)

/-- `io.Copy` from a body that reads as `chunks` and ends with `readErr`. -/
def copy (w : ResponseWriter) (readErr : Option GoString) :
    List GoString → ResponseWriter × Option GoString
  | [] => (w, readErr)
  | chunk :: chunks =>
    match w.write chunk with
    | (w, some err) => (w, some err)
    | (w, none) => w.copy readErr chunks

/-- What reaches the client of the accepted bytes. -/
def body (w : ResponseWriter) : GoString := if w.isHead then [] else w.accepted

/-- The fields that the server sets where the handler has not: the type, which it finds out from
the first bytes, the length of what a HEAD request would have got, and the date. -/
def added (w : ResponseWriter) : List GoString :=
  match w.sent with
  | none => []
  | some (status, header) =>
    let hasBody : Bool := bodyAllowedForStatus status && w.accepted ≠ []
    (if hasBody ∧ header contentTypeKey = [] ∧ header.get contentEncodingKey = [] then
      [contentTypeKey] else []) ++
    (if hasBody ∧ w.isHead ∧ header contentLengthKey = [] then [contentLengthKey] else []) ++
    (if header dateKey = [] then [dateKey] else [])

variable {w : ResponseWriter}

/-- A write behind `WriteHeader`. -/
theorem write_eq {status : Nat} {header : Header} (hsent : w.sent = some (status, header))
    (data : GoString) :
    w.write data =
      if data = [] then (w, none)
      else if bodyAllowedForStatus status = false then (w, some errBodyNotAllowed)
      else if header.contentLength.any fun n => n < w.written + data.length then
        ({ w with written := w.written + data.length }, some errContentLength)
      else ({ w with
        written := w.written + data.length
        accepted := w.accepted ++ data }, none) := by
  obtain ⟨isHead, header', sent, written, accepted⟩ := w
  subst hsent
  rfl

/-- A write that fits in what is declared. -/
theorem write_of_fits {status : Nat} {header : Header} (hsent : w.sent = some (status, header))
    (hbody : bodyAllowedForStatus status = true) {data : GoString}
    (hfits : ∀ n ∈ header.contentLength, w.written + data.length ≤ n) :
    w.write data = ({ w with
      written := w.written + data.length
      accepted := w.accepted ++ data }, none) := by
  rw [write_eq hsent]
  by_cases hdata : data = []
  · subst hdata
    simp
  · have hlimit : ¬ (header.contentLength.any fun n => n < w.written + data.length) = true := by
      intro h
      obtain ⟨n, hn, hlt⟩ := (Option.any_eq_true _ _).mp h
      have := hfits n hn
      have := of_decide_eq_true hlt
      omega
    rw [if_neg hdata, if_neg (by rw [hbody]; exact Bool.noConfusion), if_neg hlimit]

/-- A write beyond what is declared is refused. -/
theorem write_beyond {status : Nat} {header : Header} (hsent : w.sent = some (status, header))
    {data : GoString} {n : Nat} (hn : header.contentLength = some n)
    (hbeyond : n < w.written + data.length) :
    (w.write data).1.sent = w.sent ∧ (w.write data).1.accepted = w.accepted ∧
      (w.write data).1.isHead = w.isHead := by
  have hlimit : (header.contentLength.any fun n => n < w.written + data.length) = true :=
    (Option.any_eq_true _ _).mpr ⟨n, hn, decide_eq_true hbeyond⟩
  rw [write_eq hsent, if_pos hlimit]
  split
  · exact ⟨rfl, rfl, rfl⟩
  · split
    · exact ⟨rfl, rfl, rfl⟩
    · exact ⟨rfl, rfl, rfl⟩

/-- With a status without body every write is refused. -/
theorem write_bodyless {status : Nat} {header : Header} (hsent : w.sent = some (status, header))
    (hbody : bodyAllowedForStatus status = false) (data : GoString) :
    (w.write data).1 = w := by
  rw [write_eq hsent, if_pos hbody]
  split <;> rfl

theorem copy_bodyless {status : Nat} {header : Header} (hsent : w.sent = some (status, header))
    (hbody : bodyAllowedForStatus status = false) (readErr : Option GoString)
    (chunks : List GoString) : (w.copy readErr chunks).1 = w := by
  induction chunks with
  | nil => rfl
  | cons chunk chunks ih =>
    have hwrite := write_bodyless hsent hbody chunk
    rw [copy]
    rcases hchunk : w.write chunk with ⟨w', err⟩
    rw [hchunk] at hwrite
    obtain rfl : w' = w := hwrite
    cases err with
    | none => exact ih
    | some err => rfl

/-- A body that fits in what is declared is copied whole. -/
theorem copy_of_fits {status : Nat} {header : Header} (hsent : w.sent = some (status, header))
    (hbody : bodyAllowedForStatus status = true)
    (readErr : Option GoString) {chunks : List GoString}
    (hfits : ∀ n ∈ header.contentLength, w.written + chunks.flatten.length ≤ n) :
    w.copy readErr chunks = ({ w with
      written := w.written + chunks.flatten.length
      accepted := w.accepted ++ chunks.flatten }, readErr) := by
  induction chunks generalizing w with
  | nil => simp [copy]
  | cons chunk chunks ih =>
    have hchunk : ∀ n ∈ header.contentLength, w.written + chunk.length ≤ n := by
      intro n hn
      have := hfits n hn
      rw [List.flatten_cons, List.length_append] at this
      omega
    have hrest : ∀ n ∈ header.contentLength,
        w.written + chunk.length + chunks.flatten.length ≤ n := by
      intro n hn
      have := hfits n hn
      rw [List.flatten_cons, List.length_append] at this
      omega
    have hwrite := write_of_fits hsent hbody hchunk
    have hcopy := ih (w := { w with
      written := w.written + chunk.length
      accepted := w.accepted ++ chunk }) hsent hrest
    rw [copy, hwrite]
    simp only [hcopy]
    simp [Nat.add_assoc]

/-- A declared length `n`, and no more bytes accepted than that or than were written. -/
structure Within (n : Nat) (w : ResponseWriter) : Prop where
  sent : ∃ status header, w.sent = some (status, header) ∧ header.contentLength = some n
  written : w.accepted.length ≤ w.written
  accepted : w.accepted.length ≤ n

theorem Within.write {n : Nat} (h : w.Within n) (data : GoString) : (w.write data).1.Within n := by
  obtain ⟨status, header, hsent, hn⟩ := h.sent
  have hwritten := h.written
  rw [write_eq hsent]
  split
  · exact h
  · split
    · exact h
    · split
      · exact ⟨h.sent, Nat.le_add_right_of_le hwritten, h.accepted⟩
      · rename_i hroom
        rw [hn, Option.any_some, decide_eq_true_eq] at hroom
        refine ⟨h.sent, ?_, ?_⟩
        · show (w.accepted ++ data).length ≤ w.written + data.length
          rw [List.length_append]
          omega
        · show (w.accepted ++ data).length ≤ n
          rw [List.length_append]
          omega

theorem Within.copy {n : Nat} (h : w.Within n) (readErr : Option GoString)
    (chunks : List GoString) : (w.copy readErr chunks).1.Within n := by
  induction chunks generalizing w with
  | nil => exact h
  | cons chunk chunks ih =>
    have hwrite := h.write chunk
    rw [ResponseWriter.copy]
    split
    · rename_i hchunk
      rw [hchunk] at hwrite
      exact hwrite
    · rename_i hchunk
      rw [hchunk] at hwrite
      exact ih hwrite

theorem Within.body_length_le {n : Nat} (h : w.Within n) : w.body.length ≤ n := by
  unfold body
  split
  · exact Nat.zero_le n
  · exact h.accepted

section Added

variable {status : Nat} {header : Header}

theorem added_of_nothing (hsent : w.sent = some (status, header))
    (h : bodyAllowedForStatus status = false ∨ w.accepted = []) :
    w.added = [] ↔ header dateKey ≠ [] := by
  have hbody : (bodyAllowedForStatus status && decide (w.accepted ≠ [])) = false := by
    rcases h with h | h
    · rw [h, Bool.false_and]
    · rw [h]
      exact Bool.and_false _
  unfold added
  rw [hsent]
  simp only [hbody, Bool.false_eq_true, false_and, if_false, List.nil_append]
  simp

theorem added_of_body (hsent : w.sent = some (status, header))
    (hstatus : bodyAllowedForStatus status = true) (haccepted : w.accepted ≠ []) :
    w.added = [] ↔ (header contentTypeKey ≠ [] ∨ header.get contentEncodingKey ≠ []) ∧
      (w.isHead = true → header contentLengthKey ≠ []) ∧ header dateKey ≠ [] := by
  have hbody : (bodyAllowedForStatus status && decide (w.accepted ≠ [])) = true := by
    rw [hstatus, Bool.true_and, decide_eq_true_eq]
    exact haccepted
  unfold added
  rw [hsent]
  simp only [hbody, true_and, List.append_eq_nil_iff]
  simp only [ite_eq_right_iff, List.cons_ne_nil, imp_false, not_and_or, and_assoc]
  tauto

end Added

end ResponseWriter

/-! ## Copying a header -/

/-- The values a listing of a header has for a key. -/
def valuesOf (entries : List (GoString × List GoString)) : Header :=
  fun key => (entries.filter fun e => e.1 = key).flatMap Prod.snd

theorem valuesOf_perm {entries entries' : List (GoString × List GoString)}
    (hperm : entries.Perm entries') (hnodup : (entries.map Prod.fst).Nodup) :
    valuesOf entries = valuesOf entries' := by
  funext key
  have hfilter := hperm.filter fun e => decide (e.1 = key)
  have hone : (entries.filter fun e => decide (e.1 = key)).length ≤ 1 := by
    have hkeys := (hnodup.filter fun k => decide (k = key)).sublist
      (List.Sublist.refl _)
    rw [List.filter_map] at hkeys
    have hlen := List.nodup_iff_count_le_one.mp hkeys key
    have hall : ∀ k ∈ (entries.filter ((fun k => decide (k = key)) ∘ Prod.fst)).map Prod.fst,
        k = key := by
      intro k hk
      obtain ⟨e, he, rfl⟩ := List.mem_map.mp hk
      simpa using (List.mem_filter.mp he).2
    rw [List.count_eq_length.mpr fun k hk => (hall k hk).symm, List.length_map] at hlen
    exact hlen
  show (entries.filter fun e => decide (e.1 = key)).flatMap Prod.snd =
    (entries'.filter fun e => decide (e.1 = key)).flatMap Prod.snd
  generalize entries.filter (fun e => decide (e.1 = key)) = kept at hfilter hone
  cases kept with
  | nil => rw [List.nil_perm.mp hfilter]
  | cons e rest =>
    have hrest : rest = [] := List.length_eq_zero_iff.mp (by rw [List.length_cons] at hone; omega)
    rw [hrest] at hfilter ⊢
    rw [List.singleton_perm.mp hfilter]

/-- `for key, v := range header { for _, value := range v { w.Header().Add(key, value) } }`. -/
def ResponseWriter.addAll (w : ResponseWriter) (entries : List (GoString × List GoString)) :
    ResponseWriter :=
  entries.foldl (fun w e => e.2.foldl (fun w value => w.addHeader e.1 value) w) w

theorem ResponseWriter.addAll_eq (w : ResponseWriter)
    (entries : List (GoString × List GoString)) :
    w.addAll entries = { w with header := fun key => w.header key ++ valuesOf entries key } := by
  have hvalues : ∀ (key : GoString) (values : List GoString) (w : ResponseWriter),
      values.foldl (fun w value => w.addHeader key value) w =
        { w with header := Function.update w.header key (w.header key ++ values) } := by
    intro key values
    induction values with
    | nil => intro w; simp
    | cons v values ih =>
      intro w
      rw [List.foldl_cons, ih]
      simp [addHeader, Header.add]
  induction entries generalizing w with
  | nil => simp [addAll, valuesOf]
  | cons e entries ih =>
    have hstep : w.addAll (e :: entries) =
        (e.2.foldl (fun w value => w.addHeader e.1 value) w).addAll entries := rfl
    rw [hstep, hvalues, ih]
    congr 1
    funext key
    by_cases hk : key = e.1
    · subst hk
      simp [valuesOf]
    · simp [valuesOf, Function.update_of_ne hk, Ne.symm hk]

end Go
