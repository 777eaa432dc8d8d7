import YcAgent.Config.Options

/-!
# Posting a file

One upload asks the file system and the server for answers; `PostWorld` holds them.
The TLS settings of the transport do not show in what is sent and are left out.
-/
namespace YcAgent.Capture

open Go

structure OpenFile where
  name : GoString
  content : GoString

/-- How the outside steps of an upload end. An `Option` is the error of its step. -/
structure PostWorld where
  stat : Option GoString
  readCA : Option GoString
  seek : Option GoString
  newRequest : Option GoString
  send : Option GoString
  statusCode : Nat
  readAll : Except GoString GoString

structure Posted where
  msg : GoString
  ok : Bool
  /-- The address and the body of the request, when one was sent. -/
  sent : Option (GoString × GoString)

def Posted.failed (msg : GoString) : Posted := ⟨msg, false, none⟩

/-- `position` says at which offset of the file the body starts. -/
def postCustomDataWithPositionFunc (o : Options) (w : PostWorld) (endpoint params : GoString)
    (file : Option OpenFile) (position : OpenFile → Except GoString Nat) : Posted :=
  let onlyCapture : Bool := o .onlyCapture
  if onlyCapture then .failed (str "in only capture mode")
  else
    match file with
    | none => .failed (str "file is not captured")
    | some file =>
      match w.stat with
      | some e => .failed (str "file stat err " ++ e)
      | none =>
        if file.content.length < 1 then .failed (str "skipped empty file " ++ file.name)
        else
          let url := endpoint ++ str "&" ++ params
          let path : GoString := o .caCertPath
          match if 0 < path.length then w.readCA else none with
          | some e => .failed e
          | none =>
            match position file with
            | .error e => .failed (str "PostData position err " ++ e)
            | .ok offset =>
              match w.newRequest with
              | some e => .failed (str "PostData new req err " ++ e)
              | none =>
                let sent := some (url, file.content.drop offset)
                match w.send with
                | some e => ⟨str "PostData post err " ++ e, false, sent⟩
                | none =>
                  match w.readAll with
                  | .error e => ⟨str "PostData get resp err " ++ e, false, sent⟩
                  | .ok body =>
                    let msg := url ++ str "\nstatus code " ++ itoa w.statusCode ++ str "\n" ++ body
                    ⟨msg, w.statusCode = 200, sent⟩

def positionZero (w : PostWorld) (_ : OpenFile) : Except GoString Nat :=
  match w.seek with
  | some e => .error e
  | none => .ok 0

def postCustomData (o : Options) (w : PostWorld) (endpoint params : GoString)
    (file : Option OpenFile) : Posted :=
  postCustomDataWithPositionFunc o w endpoint params file (positionZero w)

def postData (o : Options) (w : PostWorld) (endpoint dt : GoString) (file : Option OpenFile) :
    Posted :=
  postCustomData o w endpoint (str "dt=" ++ dt) file

theorem postData_onlyCapture {o : Options} (ho : o .onlyCapture = true) (w : PostWorld)
    (endpoint dt : GoString) (file : Option OpenFile) :
    postData o w endpoint dt file = .failed (str "in only capture mode") :=
  if_pos ho

/-- An empty file is never sent. -/
theorem postData_empty (o : Options) (w : PostWorld) (endpoint dt name : GoString) :
    (postData o w endpoint dt (some ⟨name, []⟩)).sent = none := by
  by_cases ho : o .onlyCapture = true
  · rw [postData_onlyCapture ho]
    rfl
  · refine (congrArg Posted.sent (if_neg ho)).trans ?_
    cases w.stat <;> rfl

/-- The server accepts the upload. -/
def Accepted (w : PostWorld) : Prop := ∃ body, w = ⟨none, none, none, none, none, 200, .ok body⟩

theorem postCustomDataWithPositionFunc_accepted {o : Options} (ho : o .onlyCapture = false)
    {w : PostWorld} (hw : Accepted w) (endpoint params : GoString) {file : OpenFile}
    (hc : file.content ≠ []) {position : OpenFile → Except GoString Nat} {offset : Nat}
    (hposition : position file = .ok offset) :
    (postCustomDataWithPositionFunc o w endpoint params (some file) position).sent =
      some (endpoint ++ str "&" ++ params, file.content.drop offset) := by
  obtain ⟨body, rfl⟩ := hw
  have hlen : ¬ file.content.length < 1 := Nat.not_lt.mpr (List.length_pos_iff.mpr hc)
  have hoff : ¬ (o .onlyCapture = true) := fun h => Bool.false_ne_true (ho.symm.trans h)
  refine (congrArg Posted.sent (if_neg hoff)).trans ?_
  simp only [if_neg hlen, ite_self, hposition]

theorem postData_accepted {o : Options} (ho : o .onlyCapture = false) {w : PostWorld}
    (hw : Accepted w) (endpoint dt name : GoString) {content : GoString} (hc : content ≠ []) :
    (postData o w endpoint dt (some ⟨name, content⟩)).sent =
      some (endpoint ++ str "&" ++ (str "dt=" ++ dt), content) := by
  have hzero : positionZero w ⟨name, content⟩ = .ok 0 := by
    obtain ⟨body, rfl⟩ := hw
    rfl
  exact postCustomDataWithPositionFunc_accepted ho hw endpoint _ hc hzero

/-- A request has the address of the endpoint and the bytes behind the position. -/
theorem sent_postCustomDataWithPositionFunc {o : Options} {w : PostWorld}
    {endpoint params : GoString} {file : Option OpenFile}
    {position : OpenFile → Except GoString Nat} {url body : GoString}
    (h : (postCustomDataWithPositionFunc o w endpoint params file position).sent =
      some (url, body)) :
    url = endpoint ++ str "&" ++ params ∧
      ∃ f offset, file = some f ∧ f.content ≠ [] ∧ position f = .ok offset ∧
        body = f.content.drop offset := by
  unfold postCustomDataWithPositionFunc at h
  dsimp only at h
  split at h
  · cases h
  cases file with
  | none => cases h
  | some f =>
    cases hstat : w.stat with
    | some e => rw [hstat] at h; cases h
    | none =>
      simp only [hstat] at h
      split at h
      · cases h
      rename_i hlength
      have hcontent : f.content ≠ [] := by
        intro hnil
        rw [hnil] at hlength
        exact hlength (Nat.zero_lt_one)
      split at h
      · cases h
      cases hposition : position f with
      | error e => rw [hposition] at h; cases h
      | ok offset =>
        simp only [hposition] at h
        cases hnew : w.newRequest with
        | some e => rw [hnew] at h; cases h
        | none =>
          have hsent : some (endpoint ++ str "&" ++ params, f.content.drop offset) =
              some (url, body) := by
            rw [← h, hnew]
            cases w.send with
            | some e => rfl
            | none => cases w.readAll <;> rfl
          obtain ⟨rfl, rfl⟩ := Prod.mk.inj (Option.some.inj hsent)
          exact ⟨rfl, f, offset, rfl, hcontent, hposition, rfl⟩

end YcAgent.Capture
