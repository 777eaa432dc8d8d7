import YcAgent.Base.Url
import YcAgent.Capture.AppLog
import YcAgent.Capture.AppLogM3Call

/-!
# The name of a log in the address of its upload

Both captures of application logs put the base name of a file into the query of the address
they post to, as it is. One of them adds how the file is compressed, the other one the process
it belongs to.
-/
namespace YcAgent.Capture

open Go Go.FilePath Go.Url

/-- The address has the parameters of the endpoint, each followed by what is its own. -/
def Carries (front : GoString → Bool) (endpoint url : GoString)
    (own : List (GoString × GoString)) : Prop :=
  ∃ qe q, query front endpoint = some qe ∧ query front url = some q ∧
    ∀ key, values q key = values qe key ++ values own key

/-- How a file is compressed, where it is. -/
def contentEncoding (filePath : GoString) : List (GoString × GoString) :=
  if AppLog.IsCompressed filePath then [(str "content-encoding", AppLog.fileExt filePath)] else []

def logParameters (filePath : GoString) : List (GoString × GoString) :=
  [(str "dt", str "applog"), (str "logName", base filePath)]

/-- The key and the value of a parameter that needs no escapes. -/
def Sound (p : GoString × GoString) : Prop :=
  (IsKey p.1 ∧ Url.Clean p.1) ∧ Literal p.2 ∧ Url.Clean p.2

def paramText (p : GoString × GoString) : GoString := p.1 ++ equals :: p.2

/-- The address of an upload, with further parameters behind the name. -/
def logUrl (endpoint filePath : GoString) (more : List (GoString × GoString)) : GoString :=
  endpoint ++ ampersand :: (str "dt" ++ equals :: str "applog") ++
    ampersand :: (str "logName" ++ equals :: (base filePath ++ appended (more.map paramText)))

section Name

variable {front : GoString → Bool} {endpoint filePath : GoString}
  {more : List (GoString × GoString)}

theorem clean_paramText {p : GoString × GoString} (h : Sound p) : Url.Clean (paramText p) := by
  have hequals : Url.Clean [equals] := by decide
  exact (clean_append _ _).mpr ⟨h.1.2, (clean_append [equals] _).mpr ⟨hequals, h.2.2⟩⟩

theorem flatMap_parseQuery (h : ∀ p ∈ more, Sound p) :
    (more.map paramText).flatMap parseQuery = more := by
  induction more with
  | nil => rfl
  | cons p more ih =>
    obtain ⟨hp, hrest⟩ := List.forall_mem_cons.mp h
    rw [List.map_cons, List.flatMap_cons, ih hrest, paramText, parseQuery_param hp.1.1 hp.2.1]
    rfl

/-- The address in front of the name. -/
theorem parse_dt (hhash : Url.hash ∉ endpoint) (hquestion : question ∈ endpoint)
    {raw : GoString} (hraw : parse front endpoint = some raw) :
    parse front (endpoint ++ ampersand :: (str "dt" ++ equals :: str "applog")) =
      some (raw ++ ampersand :: (str "dt" ++ equals :: str "applog")) := by
  have hdt : Url.Clean (ampersand :: (str "dt" ++ equals :: str "applog")) := by decide
  rw [parse_append hhash hquestion hraw, cut_of_not_mem hdt.1]
  dsimp only
  rw [hdt.2]
  rfl

theorem parseQuery_dt (raw : GoString) :
    parseQuery (raw ++ ampersand :: (str "dt" ++ equals :: str "applog")) =
      parseQuery raw ++ [(str "dt", str "applog")] := by
  rw [parseQuery_append, parseQuery_param (by decide) (by decide)]

theorem not_mem_dt (hhash : Url.hash ∉ endpoint) :
    Url.hash ∉ endpoint ++ ampersand :: (str "dt" ++ equals :: str "applog") := by
  have hdt : Url.hash ∉ ampersand :: (str "dt" ++ equals :: str "applog") := by decide
  exact fun hmem => (List.mem_append.mp hmem).elim hhash hdt

theorem query_logUrl (hhash : Url.hash ∉ endpoint) (hquestion : question ∈ endpoint)
    {qe : List (GoString × GoString)} (hendpoint : query front endpoint = some qe)
    (hname : Literal (base filePath) ∧ Url.Clean (base filePath)) (hmore : ∀ p ∈ more, Sound p) :
    query front (logUrl endpoint filePath more) =
      some (qe ++ (logParameters filePath ++ more)) := by
  obtain ⟨raw, hraw, rfl⟩ := Option.map_eq_some_iff.mp hendpoint
  have hclean : ∀ m ∈ more.map paramText, Url.Clean m := by
    rw [List.forall_mem_map]
    exact fun p hp => clean_paramText (hmore p hp)
  rw [logUrl, query_param_of_clean (not_mem_dt hhash) (List.mem_append_left _ hquestion)
    (parse_dt hhash hquestion hraw) (by decide) hclean hname.2, flatMap_parseQuery hmore,
    parseQuery_dt, parseQuery_param (by decide) hname.1, List.append_assoc]
  rfl

/-- An address that brings the name back has a name without escapes. -/
theorem literal_of_logName (hquestion : question ∈ endpoint)
    {qe q : List (GoString × GoString)} (hendpoint : query front endpoint = some qe)
    (hmore : ∀ p ∈ more, Sound p ∧ p.1 ≠ str "logName")
    (hq : query front (logUrl endpoint filePath more) = some q)
    (hvalues : values q (str "logName") = values qe (str "logName") ++ [base filePath]) :
    Url.hash ∉ endpoint ∧ Literal (base filePath) ∧ Url.Clean (base filePath) := by
  obtain ⟨raw, hraw, rfl⟩ := Option.map_eq_some_iff.mp hendpoint
  have hclean : ∀ m ∈ more.map paramText, Url.Clean m := by
    rw [List.forall_mem_map]
    exact fun p hp => clean_paramText (hmore p hp).1
  by_cases hhash : Url.hash ∈ endpoint
  · obtain ⟨raw', hraw', rfl⟩ := Option.map_eq_some_iff.mp hq
    rw [logUrl, List.append_assoc] at hraw'
    rw [parse_append_of_hash hhash hraw hraw'] at hvalues
    have hlength := congrArg List.length hvalues
    rw [List.length_append, List.length_singleton] at hlength
    omega
  · obtain ⟨text, rest, rfl, htext, hrest, htextClean⟩ :=
      query_param (not_mem_dt hhash) (List.mem_append_left _ hquestion)
        (parse_dt hhash hquestion hraw) (by decide) hclean hq
    rw [flatMap_parseQuery fun p hp => (hmore p hp).1] at hrest
    have hdt : values [(str "dt", str "applog")] (str "logName") = [] := by decide
    have hnone : values rest (str "logName") = [] :=
      values_eq_nil fun p hp => (hmore p (hrest p hp)).2
    rw [parseQuery_dt, values_append, values_append, values_append, hdt, hnone, List.append_nil,
      List.append_nil, List.append_cancel_left_eq] at hvalues
    have hmem := mem_values_iff.mp (hvalues ▸ List.mem_singleton_self (base filePath))
    obtain ⟨rfl, hliteral⟩ := literal_of_mem_parseQuery (by decide) htext hmem
    exact ⟨hhash, hliteral, htextClean rfl⟩

end Name

/-! ## The two captures -/

theorem postData_url {o : Options} {w : PostWorld} {endpoint filePath rest : GoString}
    {more : List (GoString × GoString)} {file : Option OpenFile} {url body : GoString}
    (hrest : rest = appended (more.map paramText))
    (h : (postData o w endpoint (str "applog&logName=" ++ base filePath ++ rest) file).sent =
      some (url, body)) : url = logUrl endpoint filePath more := by
  have hamp : str "&" = [ampersand] := by decide
  have hdt : str "dt=" = str "dt" ++ [equals] := by decide
  have hname : str "applog&logName=" =
      str "applog" ++ ampersand :: str "logName" ++ [equals] := by decide
  rw [(sent_postCustomDataWithPositionFunc h).1, logUrl, ← hrest, hamp, hdt, hname]
  simp only [List.append_assoc, List.cons_append, List.nil_append]

theorem url_captureSingleAppLog {o : Options} {quote : GoString → GoString} {al : AppLog}
    {filePath : GoString} {w : AppLog.FileWorld} {url body : GoString}
    (h : (AppLog.captureSingleAppLog o quote al filePath w).sent = some (url, body)) :
    url = logUrl al.endpoint filePath (contentEncoding filePath) := by
  unfold AppLog.captureSingleAppLog at h
  cases hopens : w.opens with
  | error e => rw [hopens] at h; cases h
  | ok src =>
    rw [hopens] at h
    dsimp only at h
    cases hcreate : w.create with
    | some e => rw [hcreate] at h; cases h
    | none =>
      rw [hcreate] at h
      dsimp only at h
      split at h
      · cases h
      · cases hsync : w.sync with
        | some e => rw [hsync] at h; cases h
        | none =>
          rw [hsync] at h
          unfold AppLog.buildPostData at h
          by_cases hext : AppLog.IsCompressed filePath
          · have hencoding : str "&content-encoding=" ++ AppLog.fileExt filePath =
                appended ((contentEncoding filePath).map paramText) := by
              have hkey : str "&content-encoding=" =
                  ampersand :: str "content-encoding" ++ [equals] := by decide
              rw [contentEncoding, if_pos hext, List.map_singleton, appended_singleton, paramText,
                hkey]
              simp only [List.append_assoc, List.cons_append, List.nil_append]
            rw [show AppLog.isCompressedFileExt (AppLog.fileExt filePath) = true from hext,
              if_pos rfl, List.append_assoc _ (str "&content-encoding=")] at h
            exact postData_url hencoding h
          · have hplain : AppLog.isCompressedFileExt (AppLog.fileExt filePath) = false :=
              Bool.eq_false_iff.mpr hext
            have hnone : ([] : GoString) =
                appended ((contentEncoding filePath).map paramText) := by
              rw [contentEncoding, if_neg hext]
              rfl
            rw [hplain, if_neg Bool.false_ne_true, ← List.append_nil (_ ++ base filePath)] at h
            exact postData_url hnone h

theorem url_captureSingleAppLogM3 {o : Options} {readStats : AppLogM3.ReadStats}
    {c : AppLogM3.CallIn} {r : AppLogM3.Reading} {p : Posted} {url body : GoString}
    (h : (AppLogM3.captureSingleAppLog o readStats c).2 = .posted r p)
    (hsent : p.sent = some (url, body)) :
    url = logUrl c.endpoint c.filePath [(str "pid", itoa c.pid)] := by
  have hpid : str "&pid=" ++ itoa c.pid =
      appended ([(str "pid", itoa c.pid)].map paramText) := by
    have hkey : str "&pid=" = ampersand :: str "pid" ++ [equals] := by decide
    rw [List.map_singleton, appended_singleton, paramText, hkey]
    simp only [List.append_assoc, List.cons_append, List.nil_append]
  have hcall : r.filePath = c.filePath ∧ r.pid = c.pid ∧
      p = r.post o c.endpoint c.world.post := by
    unfold AppLogM3.captureSingleAppLog at h
    split at h
    · cases h
    split at h
    · cases h
    split at h
    · cases h
    split at h
    · cases h
    split at h
    · cases h
    split at h
    · cases h
    dsimp only at h
    split at h
    · cases h
    obtain ⟨rfl, rfl⟩ := AppLogM3.Outcome.posted.inj h
    exact ⟨rfl, rfl, rfl⟩
  obtain ⟨hpath, hpid', rfl⟩ := hcall
  unfold AppLogM3.Reading.post AppLogM3.Reading.dt at hsent
  rw [hpath, hpid', List.append_assoc _ (str "&pid=")] at hsent
  exact postData_url hpid hsent

theorem sound_contentEncoding (filePath : GoString) :
    ∀ p ∈ contentEncoding filePath, Sound p ∧ p.1 ≠ str "logName" := by
  intro p hp
  unfold contentEncoding at hp
  split at hp
  · rename_i hext
    obtain rfl := List.mem_singleton.mp hp
    have hvalue : ∀ ext ∈ AppLog.compressedFileExtensions,
        Sound (str "content-encoding", ext) := by
      unfold AppLog.compressedFileExtensions Sound
      decide
    obtain ⟨ext, hmem, heq⟩ := List.any_eq_true.mp hext
    obtain rfl : ext = AppLog.fileExt filePath := beq_iff_eq.mp heq
    have hkey : str "content-encoding" ≠ str "logName" := by decide
    exact ⟨hvalue _ hmem, hkey⟩
  · exact absurd hp List.not_mem_nil

theorem sound_pid (pid : Int) :
    ∀ p ∈ [(str "pid", itoa pid)], Sound p ∧ p.1 ≠ str "logName" := by
  rw [List.forall_mem_singleton]
  have hkey : (IsKey (str "pid") ∧ Url.Clean (str "pid")) ∧ str "pid" ≠ str "logName" := by decide
  exact ⟨⟨hkey.1, literal_itoa pid, clean_of_inside (inside_itoa pid)⟩, hkey.2⟩

section Carries

variable {front : GoString → Bool} {endpoint filePath : GoString}
  (hquestion : question ∈ endpoint) (hendpoint : (query front endpoint).isSome)

include hquestion hendpoint

/-- The log's name comes back exactly when it needs no escapes; what is sent behind it comes
back with it. -/
theorem carries_iff {more own : List (GoString × GoString)}
    (hmore : ∀ p ∈ more, Sound p ∧ p.1 ≠ str "logName") (hown : ∀ p ∈ own, p.1 ≠ str "logName") :
    Carries front endpoint (logUrl endpoint filePath more) (logParameters filePath ++ own) ↔
      (Url.hash ∉ endpoint ∧ Literal (base filePath) ∧ Url.Clean (base filePath)) ∧
        ∀ key, values (logParameters filePath ++ more) key =
          values (logParameters filePath ++ own) key := by
  obtain ⟨qe, hqe⟩ := Option.isSome_iff_exists.mp hendpoint
  constructor
  · intro hcarries
    obtain ⟨qe', q, hqe', hq, hvalues⟩ := hcarries
    obtain rfl : qe = qe' := Option.some.inj (hqe.symm.trans hqe')
    have hname : values (logParameters filePath ++ own) (str "logName") = [base filePath] := by
      rw [values_append, values_eq_nil hown, List.append_nil]
      rfl
    have hliteral := literal_of_logName hquestion hqe hmore hq
      (hname ▸ hvalues (str "logName"))
    refine ⟨hliteral, fun key => ?_⟩
    rw [query_logUrl hliteral.1 hquestion hqe hliteral.2 fun p hp => (hmore p hp).1] at hq
    obtain rfl := Option.some.inj hq
    have hkey := hvalues key
    rw [values_append] at hkey
    exact List.append_cancel_left hkey
  · intro hboth
    obtain ⟨hliteral, hsame⟩ := hboth
    refine ⟨qe, _, hqe, query_logUrl hliteral.1 hquestion hqe hliteral.2
      fun p hp => (hmore p hp).1, fun key => ?_⟩
    rw [values_append, hsame]

end Carries

/-- Both captures carry the name exactly when the endpoint has no fragment and every byte of the
base name stands for itself; the one for processes only where the file is not compressed. -/
theorem logUrl_carries_iff (front : GoString → Bool) (endpoint : GoString)
    (hquestion : question ∈ endpoint) (hendpoint : (query front endpoint).isSome) :
    (∀ (o : Options) (quote : GoString → GoString) (al : AppLog) (filePath : GoString)
      (w : AppLog.FileWorld) (url body : GoString), al.endpoint = endpoint →
      (AppLog.captureSingleAppLog o quote al filePath w).sent = some (url, body) →
      (Carries front endpoint url (logParameters filePath ++ contentEncoding filePath) ↔
        Url.hash ∉ endpoint ∧ Literal (base filePath) ∧ Url.Clean (base filePath))) ∧
    ∀ (o : Options) (readStats : AppLogM3.ReadStats) (c : AppLogM3.CallIn)
      (r : AppLogM3.Reading) (p : Posted) (url body : GoString), c.endpoint = endpoint →
      (AppLogM3.captureSingleAppLog o readStats c).2 = .posted r p →
      p.sent = some (url, body) →
      (Carries front endpoint url (logParameters c.filePath ++
          ((str "pid", itoa c.pid) :: contentEncoding c.filePath)) ↔
        (Url.hash ∉ endpoint ∧ Literal (base c.filePath) ∧ Url.Clean (base c.filePath)) ∧
          ¬ AppLog.IsCompressed c.filePath) := by
  constructor
  · rintro o quote al filePath w url body rfl hsent
    have hmore := sound_contentEncoding filePath
    rw [url_captureSingleAppLog hsent,
      carries_iff hquestion hendpoint hmore fun p hp => (hmore p hp).2]
    exact and_iff_left fun key => rfl
  · rintro o readStats c r p url body rfl hposted hsent
    have hown : ∀ p ∈ (str "pid", itoa c.pid) :: contentEncoding c.filePath,
        p.1 ≠ str "logName" := by
      have hkey : str "pid" ≠ str "logName" := by decide
      rw [List.forall_mem_cons]
      exact ⟨hkey, fun p hp => (sound_contentEncoding c.filePath p hp).2⟩
    rw [url_captureSingleAppLogM3 hposted hsent,
      carries_iff hquestion hendpoint (sound_pid c.pid) hown]
    refine and_congr_right fun _ => ?_
    constructor
    · intro hsame hext
      have hkey := hsame (str "content-encoding")
      rw [contentEncoding, if_pos hext] at hkey
      cases hkey
    · intro hext key
      rw [contentEncoding, if_neg hext]

def uploadEndpoint : GoString := str "https://host/ycrash?de=host"

/-- A log with one line, and outside steps that all succeed. -/
def oneLine : AppLog.FileWorld :=
  ⟨.ok (str "line"), [], none, none, ⟨none, none, none, none, none, 200, .ok []⟩⟩

theorem sent_oneLine (filePath : GoString) (hext : ¬ AppLog.IsCompressed filePath) :
    ∃ url body, (AppLog.captureSingleAppLog defaultOptions id ⟨[], -1, uploadEndpoint⟩ filePath
      oneLine).sent = some (url, body) := by
  have hplain : AppLog.isCompressedFileExt (AppLog.fileExt filePath) = false :=
    Bool.eq_false_iff.mpr hext
  have hcopy : copyLogContent (-1) (str "line") false = .ok (str "line") := rfl
  have honly : defaultOptions .onlyCapture = false := rfl
  have hline : str "line" ≠ [] := by decide
  have haccepted : Accepted oneLine.post := ⟨[], rfl⟩
  have hcapture : (AppLog.captureSingleAppLog defaultOptions id ⟨[], -1, uploadEndpoint⟩ filePath
        oneLine).sent =
      (postData defaultOptions oneLine.post uploadEndpoint
        (AppLog.buildPostData (base filePath) (AppLog.fileExt filePath) false)
        (some ⟨AppLog.generateUniqueLogPath [] (base filePath), str "line"⟩)).sent := by
    unfold AppLog.captureSingleAppLog
    simp only [oneLine, hplain, hcopy]
  exact ⟨_, _, hcapture.trans (postData_accepted honly haccepted _ _ _ hline)⟩

/-- The second call for a log of two bytes, of which it read one. -/
def secondCall : AppLogM3.CallIn :=
  ⟨str "/var/log/app.log", 7, uploadEndpoint,
    ⟨some 2, true, .ok, [], true, fun _ => some (str "b"), true,
      ⟨none, none, none, none, none, 200, .ok []⟩⟩⟩

def secondReading : AppLogM3.Reading := secondCall.reading 2 1 (str "b")

theorem posted_secondCall : (AppLogM3.captureSingleAppLog defaultOptions
    (Finmap.singleton (str "/var/log/app.log") ⟨str "/var/log/app.log", 1, 1⟩) secondCall).2 =
      .posted secondReading (secondReading.post defaultOptions uploadEndpoint
        secondCall.world.post) := rfl

theorem logUrl_carries_plainName :
    (∃ url body, (AppLog.captureSingleAppLog defaultOptions id ⟨[], -1, uploadEndpoint⟩
        (str "/var/log/app.log") oneLine).sent = some (url, body) ∧
      Carries (fun _ => true) uploadEndpoint url
        [(str "dt", str "applog"), (str "logName", str "app.log")]) ∧
    ∃ r p url body, (AppLogM3.captureSingleAppLog defaultOptions
        (Finmap.singleton (str "/var/log/app.log") ⟨str "/var/log/app.log", 1, 1⟩) secondCall).2 =
          .posted r p ∧
      p.sent = some (url, body) ∧
      Carries (fun _ => true) uploadEndpoint url
        [(str "dt", str "applog"), (str "logName", str "app.log"), (str "pid", str "7")] := by
  have hquestion : question ∈ uploadEndpoint := by decide
  have hendpoint : (query (fun _ => true) uploadEndpoint).isSome := by decide
  have hplain : Url.hash ∉ uploadEndpoint ∧ Literal (base (str "/var/log/app.log")) ∧
      Url.Clean (base (str "/var/log/app.log")) := by decide
  have hext : ¬ AppLog.IsCompressed (str "/var/log/app.log") := by decide
  have hboth := logUrl_carries_iff (fun _ => true) uploadEndpoint hquestion hendpoint
  constructor
  · obtain ⟨url, body, hsent⟩ := sent_oneLine _ hext
    exact ⟨url, body, hsent, (hboth.1 _ _ _ _ _ _ _ rfl hsent).mpr hplain⟩
  · have honly : defaultOptions .onlyCapture = false := rfl
    have hcontent : str "b" ≠ [] := by decide
    have haccepted : Accepted secondCall.world.post := ⟨[], rfl⟩
    have hsent := postData_accepted honly haccepted uploadEndpoint secondReading.dt
      secondReading.dstPath hcontent
    exact ⟨_, _, _, _, posted_secondCall, hsent,
      (hboth.2 _ _ _ _ _ _ _ rfl posted_secondCall hsent).mpr ⟨hplain, hext⟩⟩

/-- A log that is named with an ampersand. -/
theorem logUrl_ampersand :
    ¬ ∀ (front : GoString → Bool) (o : Options) (quote : GoString → GoString) (al : AppLog)
      (filePath : GoString) (w : AppLog.FileWorld) (url body : GoString),
      question ∈ al.endpoint → (query front al.endpoint).isSome →
      (AppLog.captureSingleAppLog o quote al filePath w).sent = some (url, body) →
      Carries front al.endpoint url (logParameters filePath ++ contentEncoding filePath) := by
  intro h
  have hext : ¬ AppLog.IsCompressed (str "/var/log/R&D.log") := by decide
  obtain ⟨url, body, hsent⟩ := sent_oneLine _ hext
  have hquestion : question ∈ uploadEndpoint := by decide
  have hendpoint : (query (fun _ => true) uploadEndpoint).isSome := by decide
  have hcarries := h (fun _ => true) _ _ _ _ _ url body hquestion hendpoint hsent
  have hmore := sound_contentEncoding (str "/var/log/R&D.log")
  rw [url_captureSingleAppLog hsent,
    carries_iff hquestion hendpoint hmore fun p hp => (hmore p hp).2] at hcarries
  have hliteral := hcarries.1.2.1
  revert hliteral
  decide

end YcAgent.Capture
