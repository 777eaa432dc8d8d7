import YcAgent.Base.Url
import YcAgent.Base.Utf8
import YcAgent.Capture.AppLog

/-!
# The health check of an application

The answer of the endpoint, or why there is none, goes to a file that is named after the
application and is posted under its name. The name comes from the configuration and may be any
text; what it leaves in the name of the file and in the query are letters, digits, `-` and `_`.
-/
namespace YcAgent.Capture.HealthCheck

open Go Url

/-! ## The name -/

def underscore : Byte := 95

/-- A byte of the class in the regular expression. -/
def Allowed (b : Byte) : Prop :=
  (97 ≤ b ∧ b ≤ 122) ∨ (65 ≤ b ∧ b ≤ 90) ∨ (48 ≤ b ∧ b ≤ 57) ∨ b = 45 ∨ b = underscore

instance : DecidablePred Allowed := fun _ => inferInstanceAs (Decidable (_ ∨ _))

/-- `ReplaceAllString` for one rune outside of the class, with the bytes of the rune that are still
to be passed over; a byte that starts no rune is one of its own. -/
def replaceInvalid : ℕ → GoString → GoString
  | _, [] => []
  | skip + 1, _ :: t => replaceInvalid skip t
  | 0, b :: t =>
    if Allowed b then b :: replaceInvalid 0 t
    else underscore :: replaceInvalid (runeLen (b :: t) - 1) t

def sanitizeAppNameForFileName (name : GoString) : GoString :=
  let name := replaceAll name (str "..") []
  let name := replaceAll name (str "/") [underscore]
  let name := replaceAll name (str "\\") [underscore]
  let name := replaceInvalid 0 name
  if name.length = 0 then str "default" else name

example : sanitizeAppNameForFileName (str "../a b/é") = str "_a_b__" := by decide

/-! ## The check -/

/-- `config.HealthCheck`. -/
structure Cfg where
  endpoint : GoString
  httpBody : GoString
  timeoutSecs : ℤ

structure Request where
  method : GoString
  url : GoString
  body : Option GoString
  timeout : ℤ

/-- How a request ends; with the round trip time and what `DumpResponse` makes of the response. -/
inductive Answer where
  | notBuilt (err : GoString)
  | failed (deadline : Bool) (err : GoString)
  | response (rtt : GoString) (dump : Except GoString GoString)

structure World where
  create : Option GoString
  http : Request → Answer
  post : PostWorld

def defaultTimeoutSeconds : ℤ := 10

/-- In seconds. -/
def getTimeoutDuration (cfg : Cfg) : ℤ :=
  if cfg.timeoutSecs < 0 then defaultTimeoutSeconds
  else if cfg.timeoutSecs > 0 then cfg.timeoutSecs
  else defaultTimeoutSeconds

def buildHealthCheckHTTPRequest (cfg : Cfg) : Request :=
  let timeout := getTimeoutDuration cfg
  if cfg.httpBody.length > 0 then ⟨str "POST", cfg.endpoint, some cfg.httpBody, timeout⟩
  else ⟨str "GET", cfg.endpoint, none, timeout⟩

def validateEndpoint (cfg : Cfg) : Option GoString :=
  if cfg.endpoint = [] then
    some (str "healthcheck endpoint cannot be empty, please check your configuration")
  else if hasPrefix cfg.endpoint (str "http") = false then
    some (str "healthcheck endpoint must start with http:// or https://")
  else none

/-- The error of a request that got no response. The configured number is told, also where the
default was waited for. -/
def requestError (cfg : Cfg) : Answer → Option GoString
  | .notBuilt e => some e
  | .failed true _ =>
    some (str "Timeout occurred while waiting for a response from " ++ cfg.endpoint ++
      str ". The endpoint did not respond within " ++ itoa cfg.timeoutSecs ++ str " seconds")
  | .failed false e => some e
  | .response _ _ => none

/-- What is written, and the error. -/
def executeAndRecordHealthCheck (w : World) (cfg : Cfg) : GoString × Option GoString :=
  match validateEndpoint cfg with
  | some e => ([], some e)
  | none =>
    match w.http (buildHealthCheckHTTPRequest cfg) with
    | .response rtt dump =>
      let head := str "Round Trip Time: " ++ rtt ++ [newline]
      match dump with
      | .ok text => (head ++ text, none)
      | .error e => (head, some (str "failed to dump response: " ++ e))
    | answer =>
      ([], (requestError cfg answer).map (str "HTTP health check failed: " ++ ·))

structure Outcome where
  /-- The name of the file and what it holds. -/
  file : Option (GoString × GoString)
  sent : Option (GoString × GoString)
  result : Result
  err : Option GoString

def fileName (appName : GoString) : GoString :=
  str "healthCheckEndpoint." ++ sanitizeAppNameForFileName appName ++ str ".out"

/-- What the file holds in the end; an error is written to it too. -/
def content (w : World) (cfg : Cfg) : GoString :=
  match executeAndRecordHealthCheck w cfg with
  | (written, none) => written
  | (written, some e) => written ++ (str "Health check failed: " ++ e ++ [newline])

def run (o : Options) (w : World) (endpoint appName : GoString) (cfg : Cfg) : Outcome :=
  let name := fileName appName
  match w.create with
  | some e => ⟨none, none, ⟨[], false⟩, some (str "failed to create output file: " ++ e)⟩
  | none =>
    let dt := str "healthCheckEndpoint&fileName=" ++ name ++ str "&appName=" ++
      sanitizeAppNameForFileName appName
    let posted := postData o w.post endpoint dt (some ⟨name, content w cfg⟩)
    ⟨some (name, content w cfg), posted.sent, ⟨posted.msg, posted.ok⟩, none⟩

/-! ## What is left of a name -/

theorem allowed_of_mem_replaceInvalid {skip : ℕ} {s : GoString} {b : Byte}
    (hb : b ∈ replaceInvalid skip s) : Allowed b := by
  induction s generalizing skip with
  | nil => cases skip <;> cases hb
  | cons a s ih =>
    cases skip with
    | zero =>
      rw [replaceInvalid] at hb
      split at hb
      · rename_i ha
        rcases List.mem_cons.mp hb with rfl | hb
        · exact ha
        · exact ih hb
      · rcases List.mem_cons.mp hb with rfl | hb
        · decide
        · exact ih hb
    | succ skip => exact ih hb

theorem replaceInvalid_of_allowed {s : GoString} (h : ∀ b ∈ s, Allowed b) :
    replaceInvalid 0 s = s := by
  induction s with
  | nil => rfl
  | cons b s ih =>
    obtain ⟨hb, hs⟩ := List.forall_mem_cons.mp h
    rw [replaceInvalid, if_pos hb, ih hs]

theorem not_infix_of_allowed {s old : GoString} (h : ∀ b ∈ s, Allowed b)
    (hold : ∃ b ∈ old, ¬ Allowed b) : ¬ old <:+: s := by
  intro hin
  obtain ⟨b, hb, hnot⟩ := hold
  exact hnot (h b (hin.subset hb))

theorem sanitize_of_allowed {name : GoString} (hne : name ≠ []) (h : ∀ b ∈ name, Allowed b) :
    sanitizeAppNameForFileName name = name := by
  have hdots : ∃ b ∈ str "..", ¬ Allowed b := by decide
  have hslash : ∃ b ∈ str "/", ¬ Allowed b := by decide
  have hback : ∃ b ∈ str "\\", ¬ Allowed b := by decide
  simp only [sanitizeAppNameForFileName, replaceAll_of_not_infix (not_infix_of_allowed h hdots),
    replaceAll_of_not_infix (not_infix_of_allowed h hslash),
    replaceAll_of_not_infix (not_infix_of_allowed h hback), replaceInvalid_of_allowed h]
  exact if_neg fun hlen => hne (List.length_eq_zero_iff.mp hlen)

theorem sanitize_ne_nil (name : GoString) : sanitizeAppNameForFileName name ≠ [] := by
  unfold sanitizeAppNameForFileName
  dsimp only
  split
  · decide
  · rename_i hlen
    exact fun hnil => hlen (List.length_eq_zero_iff.mpr hnil)

theorem allowed_sanitize (name : GoString) : ∀ b ∈ sanitizeAppNameForFileName name, Allowed b := by
  have hdefault : ∀ b ∈ str "default", Allowed b := by decide
  unfold sanitizeAppNameForFileName
  dsimp only
  split
  · exact hdefault
  · exact fun b hb => allowed_of_mem_replaceInvalid hb

/-- Only letters, digits, `-` and `_` are left, and at least one of them; a name of these stays,
and no other does. -/
theorem sanitize_spec (name : GoString) :
    (sanitizeAppNameForFileName name ≠ [] ∧
      ∀ b ∈ sanitizeAppNameForFileName name, Allowed b) ∧
    sanitizeAppNameForFileName (sanitizeAppNameForFileName name) =
      sanitizeAppNameForFileName name ∧
    (sanitizeAppNameForFileName name = name ↔ name ≠ [] ∧ ∀ b ∈ name, Allowed b) := by
  have hclean := And.intro (sanitize_ne_nil name) (allowed_sanitize name)
  refine ⟨hclean, sanitize_of_allowed hclean.1 hclean.2, ?_, fun h => sanitize_of_allowed h.1 h.2⟩
  intro h
  rwa [h] at hclean

/-! ## The report -/

theorem ne_of_allowed {b c : Byte} (h : Allowed b) (hc : ¬ Allowed c) : b ≠ c := fun heq =>
  hc (heq ▸ h)

theorem isCTL_of_allowed {b : Byte} (h : Allowed b) : isCTL b = false := by
  have hlow : 45 ≤ b.toNat := by
    rcases h with h | h | h | rfl | rfl
    · exact Nat.le_trans (by decide) (UInt8.le_iff_toNat_le.mp h.1)
    · exact Nat.le_trans (by decide) (UInt8.le_iff_toNat_le.mp h.1)
    · exact Nat.le_trans (by decide) (UInt8.le_iff_toNat_le.mp h.1)
    · decide
    · decide
  have hdel : b ≠ 127 := ne_of_allowed h (by decide)
  rw [isCTL, Bool.or_eq_false_iff, decide_eq_false_iff_not, decide_eq_false_iff_not,
    UInt8.lt_iff_toNat_lt]
  exact ⟨Nat.not_lt.mpr (Nat.le_trans (by decide) hlow), hdel⟩

theorem literal_sanitize (name : GoString) : Literal (sanitizeAppNameForFileName name) := by
  refine (literal_iff_forall _).mpr fun b hb => ?_
  have h := allowed_sanitize name b hb
  exact ⟨ne_of_allowed h (by decide), ne_of_allowed h (by decide), ne_of_allowed h (by decide),
    ne_of_allowed h (by decide)⟩

theorem clean_sanitize (name : GoString) : Url.Clean (sanitizeAppNameForFileName name) :=
  (clean_iff_forall _).mpr fun b hb =>
    ⟨ne_of_allowed (allowed_sanitize name b hb) (by decide),
      isCTL_of_allowed (allowed_sanitize name b hb)⟩

theorem literal_append {s t : GoString} (hs : Literal s) (ht : Literal t) : Literal (s ++ t) := by
  rw [literal_iff_forall] at hs ht ⊢
  exact List.forall_mem_append.mpr ⟨hs, ht⟩

theorem literal_fileName (name : GoString) : Literal (fileName name) :=
  literal_append (literal_append (by decide) (literal_sanitize name)) (by decide)

theorem clean_fileName (name : GoString) : Url.Clean (fileName name) :=
  (clean_append _ _).mpr ⟨(clean_append _ _).mpr ⟨by decide, clean_sanitize name⟩, by decide⟩

/-- What is asked for behind the address of the cycle. -/
def params (appName : GoString) : GoString :=
  str "dt" ++ equals :: str "healthCheckEndpoint" ++ ampersand ::
    (str "fileName" ++ equals :: fileName appName ++ ampersand ::
      (str "appName" ++ equals :: sanitizeAppNameForFileName appName))

theorem parseQuery_params (appName : GoString) :
    parseQuery (params appName) = [(str "dt", str "healthCheckEndpoint"),
      (str "fileName", fileName appName),
      (str "appName", sanitizeAppNameForFileName appName)] := by
  rw [params, parseQuery_append, parseQuery_append, parseQuery_param (by decide) (by decide),
    parseQuery_param (by decide) (literal_fileName appName),
    parseQuery_param (by decide) (literal_sanitize appName)]
  rfl

theorem dt_eq (appName : GoString) :
    str "dt=" ++ (str "healthCheckEndpoint&fileName=" ++ fileName appName ++ str "&appName=" ++
      sanitizeAppNameForFileName appName) = params appName := by
  have hdt : str "dt=" = str "dt" ++ [equals] := by decide
  have hfile : str "healthCheckEndpoint&fileName=" =
      str "healthCheckEndpoint" ++ ampersand :: str "fileName" ++ [equals] := by decide
  have happ : str "&appName=" = ampersand :: str "appName" ++ [equals] := by decide
  rw [params, hdt, hfile, happ]
  simp only [List.append_assoc, List.cons_append, List.nil_append]

theorem clean_param {key value : GoString} (hkey : Url.Clean key) (hvalue : Url.Clean value) :
    Url.Clean (key ++ equals :: value) := by
  have hequals : Url.Clean [equals] := by decide
  exact (clean_append _ _).mpr ⟨hkey, (clean_append [equals] _).mpr ⟨hequals, hvalue⟩⟩

theorem clean_ampersand {s t : GoString} (hs : Url.Clean s) (ht : Url.Clean t) :
    Url.Clean (s ++ ampersand :: t) := by
  have hamp : Url.Clean [ampersand] := by decide
  exact (clean_append _ _).mpr ⟨hs, (clean_append [ampersand] _).mpr ⟨hamp, ht⟩⟩

theorem clean_params (appName : GoString) : Url.Clean (params appName) :=
  clean_ampersand (clean_param (by decide) (by decide))
    (clean_ampersand (clean_param (by decide) (clean_fileName appName))
      (clean_param (by decide) (clean_sanitize appName)))

theorem written_ne_nil {w : World} {cfg : Cfg} {written : GoString}
    (h : executeAndRecordHealthCheck w cfg = (written, none)) : written ≠ [] := by
  unfold executeAndRecordHealthCheck at h
  split at h
  · cases h
  · cases hhttp : w.http (buildHealthCheckHTTPRequest cfg) with
    | notBuilt e =>
      rw [hhttp] at h
      cases h
    | failed deadline e =>
      rw [hhttp] at h
      cases deadline <;> cases h
    | response rtt dump =>
      rw [hhttp] at h
      cases dump with
      | error e => cases h
      | ok text =>
        obtain ⟨hwritten, -⟩ := Prod.mk.inj h
        rw [← hwritten]
        simp

theorem content_ne_nil (w : World) (cfg : Cfg) : content w cfg ≠ [] := by
  unfold content
  split
  · rename_i hresult
    exact written_ne_nil hresult
  · simp

theorem slash_not_mem_fileName (appName : GoString) : slash ∉ fileName appName := by
  have hsanitize : slash ∉ sanitizeAppNameForFileName appName := fun h =>
    absurd (allowed_sanitize appName _ h) (by decide)
  have hfront : slash ∉ str "healthCheckEndpoint." := by decide
  have hback : slash ∉ str ".out" := by decide
  simp [fileName, hfront, hback, hsanitize]

/-- Every check leaves one file, in the working directory itself, also one that failed. It is sent
where it is to be, and the server reads which file it is and the name that is left of the
application. -/
theorem run_sends {w : World} (hcreate : w.create = none) (o : Options) (u appName : GoString)
    (cfg : Cfg) :
    (run o w u appName cfg).file = some (fileName appName, content w cfg) ∧
      content w cfg ≠ [] ∧ slash ∉ fileName appName ∧
      (o .onlyCapture = false → Accepted w.post → ∀ (front : GoString → Bool) (raw : GoString),
        hash ∉ u → question ∈ u → parse front u = some raw →
        ∃ url, (run o w u appName cfg).sent = some (url, content w cfg) ∧
          query front url = some (parseQuery raw ++ [(str "dt", str "healthCheckEndpoint"),
            (str "fileName", fileName appName),
            (str "appName", sanitizeAppNameForFileName appName)])) := by
  have hne := content_ne_nil w cfg
  refine ⟨?_, hne, slash_not_mem_fileName appName, ?_⟩
  · simp only [run, hcreate]
  · intro ho hpost front raw hhash hquestion hu
    refine ⟨u ++ ampersand :: params appName, ?_, ?_⟩
    · simp only [run, hcreate]
      rw [postData_accepted ho hpost _ _ _ hne, dt_eq, List.append_assoc]
      rfl
    · rw [query_append hhash hquestion hu (clean_params appName), parseQuery_params]

/-- A check that runs into its time, of an application with a path for a name. -/
def timedOut : World :=
  ⟨none, fun _ => .failed true (str "context deadline exceeded"),
    ⟨none, none, none, none, none, 200, .ok []⟩⟩

def shop : Cfg := ⟨str "http://shop/", [], 0⟩

theorem run_sends_timedOut :
    ∃ url, (run defaultOptions timedOut (str "http://h/m3-receiver?de=h") (str "../shop")
        shop).file = some (fileName (str "../shop"), content timedOut shop) ∧
      content timedOut shop ≠ [] ∧ slash ∉ fileName (str "../shop") ∧
      (run defaultOptions timedOut (str "http://h/m3-receiver?de=h") (str "../shop") shop).sent =
        some (url, content timedOut shop) ∧
      query (fun _ => true) url = some (parseQuery (str "de=h") ++
        [(str "dt", str "healthCheckEndpoint"), (str "fileName", fileName (str "../shop")),
          (str "appName", sanitizeAppNameForFileName (str "../shop"))]) := by
  obtain ⟨hfile, hne, hslash, hsends⟩ := run_sends (w := timedOut) rfl defaultOptions
    (str "http://h/m3-receiver?de=h") (str "../shop") shop
  have haccepted : Accepted timedOut.post := ⟨[], rfl⟩
  obtain ⟨url, hsent, hquery⟩ := hsends rfl haccepted (fun _ => true) (str "de=h") (by decide)
    (by decide) (by decide)
  exact ⟨url, hfile, hne, hslash, hsent, hquery⟩

end YcAgent.Capture.HealthCheck
