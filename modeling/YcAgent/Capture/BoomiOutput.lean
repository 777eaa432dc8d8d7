import YcAgent.Base.Table
import YcAgent.Capture.AppLog
import YcAgent.Capture.Boomi

/-!
# The output file of the Boomi capture

`boomi.out` holds three tables, the execution records, the atoms and the connectors, with a
row of semicolons between them, and is posted to the server from where
`PositionLast5000Lines` leaves it.

What the requests return is a parameter, and the file takes what is written to it. Text is
written as it is, so the file can be read back when no text has a comma or a line feed in it;
and line feeds are counted, so it goes out whole when it has fewer than 5000 of them.
-/
namespace YcAgent.Capture.Boomi

open Go Text

/-- A value that `json.Unmarshal` leaves in an `interface`: a number, by what `int` makes of it,
or another. -/
inductive JsonValue where
  | float64 (int : Int)
  | other

structure ExecutionRecord where
  executionID : GoString
  executionTime : GoString
  status : GoString
  processName : GoString
  atomName : GoString
  atomID : GoString
  executionDuration : List JsonValue

structure AtomQuery where
  type : GoString
  name : GoString
  status : GoString
  atomType : GoString
  hostName : GoString
  dateInstalled : GoString
  currentVersion : GoString
  forceRestartTime : Int
  id : GoString

structure AtomConnector where
  type : GoString
  atomType : GoString
  name : GoString

def convertExecutionDurationToInt (record : ExecutionRecord) (jobStatus : GoString) : Int :=
  if (jobStatus = str "COMPLETE" ∨ jobStatus = str "ERROR") ∧
      record.executionDuration.length = 2 then
    match record.executionDuration[1]? with
    | some (JsonValue.float64 value) => value
    | _ => 0
  else 0

/-- The process, and what `boomi.out` holds; the file may be nil. -/
structure BoomiExecutionOutput where
  pid : Int
  file : Option GoString

namespace BoomiExecutionOutput

def writeString (b : BoomiExecutionOutput) (s : GoString) : BoomiExecutionOutput :=
  { b with file := b.file.map (· ++ s) }

def writeHeader (b : BoomiExecutionOutput) : BoomiExecutionOutput :=
  b.writeString (str "exec_time,exec_duration,status,atom_name,atom_id,process_id," ++
    str "atom_process_name, execution_id\n")

def writeAtomDetailsHeader (b : BoomiExecutionOutput) : BoomiExecutionOutput :=
  (b.writeString (str ";;;;;;;;\n")).writeString
    (str "type,name,status,atom_type,host_name,date_installed,version," ++
      str "atom_force_resatrt,atom_id,config\n")

def writeAtomConnectorDetailsHeader (b : BoomiExecutionOutput) : BoomiExecutionOutput :=
  (b.writeString (str ";;;;;;;;\n")).writeString (str "type,name,atom_type\n")

/-- The values of the format string of a record. -/
def recordFields (pid : Int) (executionRecord : ExecutionRecord) : List GoString :=
  let executionDuration := convertExecutionDurationToInt executionRecord executionRecord.status
  [executionRecord.executionTime, itoa executionDuration, executionRecord.status,
    executionRecord.atomName, executionRecord.atomID, itoa pid, executionRecord.processName,
    executionRecord.executionID]

def atomFields (atomId : GoString) (atomQuery : AtomQuery) : List GoString :=
  [atomQuery.type, atomQuery.name, atomQuery.status, atomQuery.atomType, atomQuery.hostName,
    atomQuery.dateInstalled, atomQuery.currentVersion, itoa atomQuery.forceRestartTime,
    atomQuery.id, if atomId = atomQuery.id then str "Y" else str "N"]

def connectorFields (atomConnector : AtomConnector) : List GoString :=
  [atomConnector.type, atomConnector.name, atomConnector.atomType]

/-- One line for each element of a list. -/
def writeLines (b : BoomiExecutionOutput) {T : Type*} (fields : T → List GoString)
    (elems : List T) : BoomiExecutionOutput :=
  elems.foldl (fun b elem => b.writeString (join (fields elem) (str ",") ++ str "\n")) b

def writeRecords (b : BoomiExecutionOutput) (records : List ExecutionRecord) :
    BoomiExecutionOutput :=
  b.writeLines (recordFields b.pid) records

def writeAtomQueryDetails (o : Options) (b : BoomiExecutionOutput) (result : List AtomQuery) :
    BoomiExecutionOutput :=
  b.writeLines (atomFields (o .atomId)) result

def writeAtomConnectorDetails (b : BoomiExecutionOutput) (atomConnectors : List AtomConnector) :
    BoomiExecutionOutput :=
  b.writeLines connectorFields atomConnectors

end BoomiExecutionOutput

open BoomiExecutionOutput

/-- `PositionLast5000Lines`, as the offset at which it leaves the file. -/
def positionLast5000Lines (w : PostWorld) (file : OpenFile) : Except GoString Nat :=
  match w.seek with
  | some e => .error e
  | none => positionLastLines file.content 5000

def uploadBoomiDetailsToServer (o : Options) (w : PostWorld) (endpoint : GoString)
    (dataFile : Option GoString) (paramType : GoString) : Posted :=
  postCustomDataWithPositionFunc o w endpoint (str "dt=" ++ paramType)
    (dataFile.map (OpenFile.mk (str "boomi.out"))) (positionLast5000Lines w)

/-- What the requests return for the account or the address, the user and the password. -/
structure Api where
  fetchBoomiExecutionRecords :
    GoString → GoString → GoString → List ExecutionRecord × Option GoString
  getAtomQueryDetails : GoString → GoString → GoString → List AtomQuery
  fetchAtomConnectorDetails : GoString → GoString → GoString → List AtomConnector

section Account

variable (o : Options) (api : Api)

/-- `BoomiURL` for the account of the configuration. -/
def boomiURL : GoString :=
  replaceFirst (str "\x7baccountId\x7d") (o .boomiAcctId)
    (str "https://api.boomi.com/api/rest/v1/\x7baccountId\x7d/ExecutionRecord/query")

def Api.executionRecords : List ExecutionRecord × Option GoString :=
  api.fetchBoomiExecutionRecords (o .boomiUser) (o .boomiPassword) (boomiURL o)

def Api.atoms : List AtomQuery :=
  api.getAtomQueryDetails (o .boomiAcctId) (o .boomiUser) (o .boomiPassword)

def Api.connectors : List AtomConnector :=
  let accountID : GoString := o .boomiAcctId
  let atomConnectorURL :=
    str "https://api.boomi.com/api/rest/v1/" ++ accountID ++ str "/Connector/query"
  api.fetchAtomConnectorDetails (o .boomiUser) (o .boomiPassword) atomConnectorURL

end Account

/-- What a capture leaves: `boomi.out` if it was created, and the upload if there was one. -/
structure Captured where
  file : Option GoString
  posted : Option Posted

def captureBoomiDetails (o : Options) (createFile : Option GoString) (api : Api) (w : PostWorld)
    (endpoint : GoString) (pid : Int) : Captured :=
  let accountID : GoString := o .boomiAcctId
  if accountID = [] then ⟨none, none⟩
  else
    let boomiUserName : GoString := o .boomiUser
    let boomiPassword : GoString := o .boomiPassword
    if boomiUserName = [] ∨ boomiPassword = [] then ⟨none, none⟩
    else
      match createFile with
      | some _ => ⟨none, none⟩
      | none =>
        let output : BoomiExecutionOutput := ⟨pid, some []⟩
        match api.executionRecords o with
        | (_, some _) => ⟨output.file, none⟩
        | (executionRecords, none) =>
          if executionRecords.length = 0 then ⟨output.file, none⟩
          else
            let output := (output.writeHeader).writeRecords executionRecords
            let output := (output.writeAtomDetailsHeader).writeAtomQueryDetails o (api.atoms o)
            let output :=
              (output.writeAtomConnectorDetailsHeader).writeAtomConnectorDetails (api.connectors o)
            ⟨output.file, some (uploadBoomiDetailsToServer o w endpoint output.file (str "boomi"))⟩

/-! ## What the file holds -/

def comma : Byte := 44

/-- The row between two tables. -/
def delimiter : GoString := str ";;;;;;;;"

/-- The three tables. -/
def tables (o : Options) (pid : Int) (records : List ExecutionRecord) (atoms : List AtomQuery)
    (connectors : List AtomConnector) : List (Table Byte) :=
  [⟨str "exec_time,exec_duration,status,atom_name,atom_id,process_id," ++
      str "atom_process_name, execution_id", records.map (recordFields pid)⟩,
    ⟨str "type,name,status,atom_type,host_name,date_installed,version," ++
      str "atom_force_resatrt,atom_id,config", atoms.map (atomFields (o .atomId))⟩,
    ⟨str "type,name,atom_type", connectors.map connectorFields⟩]

def boomiOut (o : Options) (pid : Int) (records : List ExecutionRecord) (atoms : List AtomQuery)
    (connectors : List AtomConnector) : GoString :=
  Table.render newline comma delimiter (tables o pid records atoms connectors)

section Written

variable (o : Options) (pid : Int) (records : List ExecutionRecord) (atoms : List AtomQuery)
  (connectors : List AtomConnector)

/-- The file after the six writers of a capture. -/
def written : BoomiExecutionOutput :=
  let output := (BoomiExecutionOutput.writeHeader ⟨pid, some []⟩).writeRecords records
  let output := output.writeAtomDetailsHeader.writeAtomQueryDetails o atoms
  output.writeAtomConnectorDetailsHeader.writeAtomConnectorDetails connectors

theorem writeLines_eq {T : Type*} (fields : T → List GoString) (elems : List T)
    (b : BoomiExecutionOutput) :
    b.writeLines fields elems =
      b.writeString (ended newline ((elems.map fields).map [comma].intercalate)) := by
  induction elems generalizing b with
  | nil =>
    change b = ⟨b.pid, b.file.map (· ++ [])⟩
    cases hfile : b.file <;> simp [← hfile]
  | cons elem elems ih =>
    have hstep : b.writeLines fields (elem :: elems) =
        (b.writeString (join (fields elem) (str ",") ++ str "\n")).writeLines fields elems := rfl
    rw [hstep, ih, List.map_cons, List.map_cons, ended_cons]
    simp only [writeString, Option.map_map]
    congr 2
    funext content
    have hcomma : str "," = [comma] := by decide
    have hnewline : str "\n" = [newline] := by decide
    simp [join, hcomma, hnewline]

theorem written_file : (written o pid records atoms connectors).file =
    some (boomiOut o pid records atoms connectors) := by
  have hrecords : str "atom_process_name, execution_id\n" =
      str "atom_process_name, execution_id" ++ [newline] := by decide
  have hatoms : str "atom_force_resatrt,atom_id,config\n" =
      str "atom_force_resatrt,atom_id,config" ++ [newline] := by decide
  have hconnectors : str "type,name,atom_type\n" = str "type,name,atom_type" ++ [newline] := by
    decide
  have hdelimiter : str ";;;;;;;;\n" = delimiter ++ [newline] := by decide
  have hnil : ended newline ([] : List GoString) = [] := rfl
  unfold written writeRecords writeAtomQueryDetails writeAtomConnectorDetails boomiOut Table.render
  simp only [writeLines_eq, writeHeader, writeAtomDetailsHeader, writeAtomConnectorDetailsHeader,
    writeString, Option.map_some, tables, Table.lines, List.map_cons, List.map_nil,
    List.intercalate_cons_cons, List.intercalate_singleton, ended_append, ended_cons, hrecords,
    hatoms, hconnectors, hdelimiter, hnil]
  simp only [List.append_assoc, List.cons_append, List.nil_append]

variable {createFile : Option GoString} {api : Api} {w : PostWorld} {endpoint : GoString}

theorem captureBoomiDetails_eq {o : Options} {records : List ExecutionRecord}
    (haccount : (o .boomiAcctId : GoString) ≠ []) (huser : (o .boomiUser : GoString) ≠ [])
    (hpassword : (o .boomiPassword : GoString) ≠ [])
    (hrecords : api.executionRecords o = (records, none)) (hne : records ≠ []) :
    captureBoomiDetails o none api w endpoint pid =
      ⟨some (boomiOut o pid records (api.atoms o) (api.connectors o)),
        some (uploadBoomiDetailsToServer o w endpoint
          (some (boomiOut o pid records (api.atoms o) (api.connectors o))) (str "boomi"))⟩ := by
  have hfile := written_file o pid records (api.atoms o) (api.connectors o)
  have hboth : ¬((o .boomiUser : GoString) = [] ∨ (o .boomiPassword : GoString) = []) :=
    not_or.mpr ⟨huser, hpassword⟩
  have hlength : ¬records.length = 0 := mt List.length_eq_zero_iff.mp hne
  refine (if_neg haccount).trans ((if_neg hboth).trans ?_)
  rw [hrecords]
  refine (if_neg hlength).trans ?_
  unfold written at hfile
  dsimp only at hfile ⊢
  rw [hfile]

/-- What is posted is the file of the six writers. -/
theorem captureBoomiDetails_posted {o : Options} {p : Posted}
    (h : (captureBoomiDetails o createFile api w endpoint pid).posted = some p) :
    (captureBoomiDetails o createFile api w endpoint pid).file =
        some (boomiOut o pid (api.executionRecords o).1 (api.atoms o) (api.connectors o)) ∧
      p = uploadBoomiDetailsToServer o w endpoint
        (some (boomiOut o pid (api.executionRecords o).1 (api.atoms o) (api.connectors o)))
        (str "boomi") := by
  have hcaptured := h
  unfold captureBoomiDetails at hcaptured
  dsimp only at hcaptured
  split at hcaptured
  · cases hcaptured
  rename_i haccount
  split at hcaptured
  · cases hcaptured
  rename_i hboth
  obtain ⟨huser, hpassword⟩ := not_or.mp hboth
  cases createFile with
  | some e => cases hcaptured
  | none =>
    rcases hrecords : api.executionRecords o with ⟨records, err⟩
    rw [hrecords] at hcaptured
    cases err with
    | some e => cases hcaptured
    | none =>
      have hne : records ≠ [] := by
        rintro rfl
        cases hcaptured
      rw [captureBoomiDetails_eq pid haccount huser hpassword hrecords hne] at h ⊢
      exact ⟨rfl, (Option.some.inj h).symm⟩

end Written

/-! ## Texts and lines -/

/-- What a server fills in as it likes. -/
def ExecutionRecord.texts (r : ExecutionRecord) : List GoString :=
  [r.executionTime, r.status, r.atomName, r.atomID, r.processName, r.executionID]

def AtomQuery.texts (q : AtomQuery) : List GoString :=
  [q.type, q.name, q.status, q.atomType, q.hostName, q.dateInstalled, q.currentVersion, q.id]

def AtomConnector.texts (c : AtomConnector) : List GoString := [c.type, c.name, c.atomType]

theorem plainField_itoa (n : Int) : Table.PlainField newline comma (itoa n) :=
  ⟨not_mem_itoa (by decide) (by decide) n, not_mem_itoa (by decide) (by decide) n⟩

theorem count_itoa (n : Int) : (itoa n).count newline = 0 :=
  List.count_eq_zero.mpr (plainField_itoa n).1

/-- The lines that rows of texts take: one each, and one more for every line feed in a text. -/
def linesOf (rows : List (List GoString)) : Nat :=
  (rows.map fun texts => (texts.map (List.count newline)).sum + 1).sum

/-- The texts of a file, row by row. -/
def texts (records : List ExecutionRecord) (atoms : List AtomQuery)
    (connectors : List AtomConnector) : List (List GoString) :=
  records.map ExecutionRecord.texts ++ atoms.map AtomQuery.texts ++
    connectors.map AtomConnector.texts

section Count

variable (o : Options) (pid : Int) (records : List ExecutionRecord) (atoms : List AtomQuery)
  (connectors : List AtomConnector)

theorem sum_count_recordFields (r : ExecutionRecord) :
    ((recordFields pid r).map (List.count newline)).sum =
      (r.texts.map (List.count newline)).sum := by
  simp only [recordFields, ExecutionRecord.texts, List.map_cons, List.map_nil, List.sum_cons,
    List.sum_nil, count_itoa]
  omega

theorem sum_count_atomFields (atomId : GoString) (q : AtomQuery) :
    ((atomFields atomId q).map (List.count newline)).sum =
      (q.texts.map (List.count newline)).sum := by
  have hconfig : List.count newline (if atomId = q.id then str "Y" else str "N") = 0 := by
    split <;> decide
  simp only [atomFields, AtomQuery.texts, List.map_cons, List.map_nil, List.sum_cons,
    List.sum_nil, count_itoa, hconfig]
  omega

theorem linesOf_append (rows rows' : List (List GoString)) :
    linesOf (rows ++ rows') = linesOf rows + linesOf rows' := by
  rw [linesOf, List.map_append, List.sum_append]
  rfl

theorem linesOf_map {T : Type*} {fields texts : T → List GoString}
    (h : ∀ elem, ((fields elem).map (List.count newline)).sum =
      ((texts elem).map (List.count newline)).sum) (elems : List T) :
    linesOf (elems.map fields) = linesOf (elems.map texts) := by
  simp only [linesOf, List.map_map, Function.comp_def, h]

/-- Five lines are headings and delimiters. -/
theorem count_boomiOut : (boomiOut o pid records atoms connectors).count newline =
    5 + linesOf (texts records atoms connectors) := by
  have hlines (t : Table Byte) : ((t.lines comma).map fun line => line.count newline + 1).sum =
      t.heading.count newline + 1 + linesOf t.rows := Table.sum_count_lines (by decide) t
  have hrecords := linesOf_map (sum_count_recordFields pid) records
  have hatoms := linesOf_map (sum_count_atomFields (o .atomId)) atoms
  have hheadings : (str "exec_time,exec_duration,status,atom_name,atom_id,process_id," ++
        str "atom_process_name, execution_id").count newline = 0 ∧
      (str "type,name,status,atom_type,host_name,date_installed,version," ++
        str "atom_force_resatrt,atom_id,config").count newline = 0 ∧
      (str "type,name,atom_type").count newline = 0 ∧ delimiter.count newline = 0 := by
    decide
  obtain ⟨hfirst, hsecond, hthird, hdelimiter⟩ := hheadings
  rw [boomiOut, Table.render, count_ended, texts, linesOf_append, linesOf_append, ← hrecords,
    ← hatoms]
  simp only [tables, List.map_cons, List.map_nil, List.intercalate_cons_cons,
    List.intercalate_singleton, List.map_append, List.sum_append, hlines, hfirst,
    hsecond, hthird, hdelimiter, List.sum_cons, List.sum_nil]
  have hconnectors : linesOf (connectors.map connectorFields) =
      linesOf (connectors.map AtomConnector.texts) := rfl
  omega

end Count

/-! ## The upload -/

/-- What goes to the server is the end of the file, of which it is all with fewer than 5000
line feeds. -/
theorem upload_sent {o : Options} {w : PostWorld} {endpoint content url body : GoString}
    (h : (uploadBoomiDetailsToServer o w endpoint (some content) (str "boomi")).sent =
      some (url, body)) :
    body = content ↔ content.count newline < 5000 := by
  obtain ⟨-, f, offset, hf, hcontent, hoffset, rfl⟩ := sent_postCustomDataWithPositionFunc h
  obtain rfl := Option.some.inj hf
  have hposition : positionLastLines content 5000 = .ok offset := by
    unfold positionLast5000Lines at hoffset
    cases hseek : w.seek with
    | some e => rw [hseek] at hoffset; cases hoffset
    | none => rwa [hseek] at hoffset
  obtain ⟨offset', hoffset', hspec⟩ := positionLastLines_spec hcontent (n := 5000) (by decide)
  rw [hposition] at hoffset'
  obtain rfl := Except.ok.inj hoffset'
  exact drop_isPosition_eq_self_iff hspec

/-- The posted bytes are the whole file, each line of each table, exactly when there are fewer
than 5000 lines. -/
theorem captureBoomiDetails_whole_iff (o : Options) (createFile : Option GoString) (api : Api)
    (w : PostWorld) (endpoint : GoString) (pid : Int) (url body : GoString)
    (h : (captureBoomiDetails o createFile api w endpoint pid).posted.bind Posted.sent =
      some (url, body)) :
    (captureBoomiDetails o createFile api w endpoint pid).file = some body ∧
        body = boomiOut o pid (api.executionRecords o).1 (api.atoms o) (api.connectors o) ↔
      5 + linesOf (texts (api.executionRecords o).1 (api.atoms o) (api.connectors o)) < 5000 := by
  obtain ⟨p, hposted, hsent⟩ := Option.bind_eq_some_iff.mp h
  obtain ⟨hfile, hp⟩ := captureBoomiDetails_posted pid hposted
  rw [hp] at hsent
  have hwhole := upload_sent hsent
  rw [count_boomiOut] at hwhole
  rw [← hwhole, hfile]
  refine ⟨fun hboth => hboth.2, fun heq => ⟨?_, heq⟩⟩
  rw [heq]

/-- A server that accepts what is posted. -/
def accepting : PostWorld := ⟨none, none, none, none, none, 200, .ok []⟩

def boomiAccount : Options :=
  Function.update (Function.update (Function.update defaultOptions .boomiAcctId (str "account"))
    .boomiUser (str "user")) .boomiPassword (str "password")

def apiOf (records : List ExecutionRecord) : Api :=
  ⟨fun _ _ _ => (records, none), fun _ _ _ => [], fun _ _ _ => []⟩

theorem captureBoomiDetails_sends {records : List ExecutionRecord} (hne : records ≠ []) :
    ∃ url body, (captureBoomiDetails boomiAccount none (apiOf records) accepting
      (str "https://host/ycrash?de=host") 7).posted.bind Posted.sent = some (url, body) := by
  have hcontent : boomiOut boomiAccount 7 records [] [] ≠ [] := by
    intro hnil
    have hcount := count_boomiOut boomiAccount 7 records [] []
    rw [hnil, List.count_nil] at hcount
    omega
  obtain ⟨offset, hoffset, -⟩ := positionLastLines_spec hcontent (n := 5000) (by decide)
  have hposition : positionLast5000Lines accepting
      ⟨str "boomi.out", boomiOut boomiAccount 7 records [] []⟩ = .ok offset := hoffset
  have honly : boomiAccount .onlyCapture = false := rfl
  have hsent := postCustomDataWithPositionFunc_accepted honly ⟨[], rfl⟩
    (str "https://host/ycrash?de=host") (str "dt=" ++ str "boomi") hcontent hposition
  have haccount : str "account" ≠ [] := by decide
  have huser : str "user" ≠ [] := by decide
  have hpassword : str "password" ≠ [] := by decide
  rw [captureBoomiDetails_eq 7 haccount huser hpassword rfl hne]
  exact ⟨_, _, hsent⟩

theorem captureBoomiDetails_whole_oneRecord :
    ∃ body, (captureBoomiDetails boomiAccount none
          (apiOf [⟨str "execution-1", str "2024-01-01T00:00:00Z", str "COMPLETE", str "Orders",
            str "atom", str "atom-1", [.other, .float64 1200]⟩])
          accepting (str "https://host/ycrash?de=host") 7).file = some body ∧
      body = boomiOut boomiAccount 7 [⟨str "execution-1", str "2024-01-01T00:00:00Z",
        str "COMPLETE", str "Orders", str "atom", str "atom-1", [.other, .float64 1200]⟩]
        [] [] := by
  obtain ⟨url, body, hsent⟩ := captureBoomiDetails_sends (List.cons_ne_nil _ [])
  exact ⟨body, (captureBoomiDetails_whole_iff _ _ _ _ _ _ _ _ hsent).mpr (by decide)⟩

/-- Half as many records as the loop fetches are too many. -/
theorem captureBoomiDetails_beheaded :
    ¬ ∀ (o : Options) (createFile : Option GoString) (api : Api) (w : PostWorld)
      (endpoint : GoString) (pid : Int) (url body : GoString),
      (api.executionRecords o).1.length ≤ 10000 →
      (captureBoomiDetails o createFile api w endpoint pid).posted.bind Posted.sent =
        some (url, body) →
      (captureBoomiDetails o createFile api w endpoint pid).file = some body ∧
        body = boomiOut o pid (api.executionRecords o).1 (api.atoms o) (api.connectors o) := by
  intro h
  obtain ⟨n, hn⟩ : ∃ n, n = 5000 := ⟨_, rfl⟩
  have hne : List.replicate n (⟨[], [], [], [], [], [], []⟩ : ExecutionRecord) ≠ [] := by
    rw [hn]
    exact List.replicate_succ_ne_nil
  have hrecords : ((apiOf (List.replicate n ⟨[], [], [], [], [], [], []⟩)).executionRecords
      boomiAccount).1 = List.replicate n ⟨[], [], [], [], [], [], []⟩ := rfl
  have hcap :
      (List.replicate n (⟨[], [], [], [], [], [], []⟩ : ExecutionRecord)).length ≤ 10000 := by
    rw [List.length_replicate]
    omega
  obtain ⟨url, body, hsent⟩ := captureBoomiDetails_sends hne
  have hwhole := (h _ _ _ _ _ _ _ _ (hrecords ▸ hcap) hsent).2
  obtain ⟨p, hposted, hp⟩ := Option.bind_eq_some_iff.mp hsent
  rw [(captureBoomiDetails_posted 7 hposted).2] at hp
  have hlines := (upload_sent hp).mp hwhole
  have hall : linesOf (texts (List.replicate n ⟨[], [], [], [], [], [], []⟩) [] []) = n := by
    simp [linesOf, texts, ExecutionRecord.texts]
  have hnil : (apiOf (List.replicate n ⟨[], [], [], [], [], [], []⟩)).atoms boomiAccount = [] ∧
      (apiOf (List.replicate n ⟨[], [], [], [], [], [], []⟩)).connectors boomiAccount = [] :=
    ⟨rfl, rfl⟩
  rw [count_boomiOut, hrecords, hnil.1, hnil.2, hall] at hlines
  omega

/-! ## Reading the file back -/

theorem wellFormed_tables (o : Options) (pid : Int) (records : List ExecutionRecord)
    (atoms : List AtomQuery) (connectors : List AtomConnector) :
    Table.WellFormed newline comma delimiter (tables o pid records atoms connectors) where
  separators := by decide
  mark_nl := by decide
  mark_sep := by decide
  nonempty := List.cons_ne_nil _ _
  heading_nl := by
    unfold tables
    simp only [List.forall_mem_cons]
    refine ⟨by decide, by decide, by decide, fun t ht => absurd ht List.not_mem_nil⟩
  heading_mark := by
    unfold tables
    simp only [List.forall_mem_cons]
    refine ⟨by decide, by decide, by decide, fun t ht => absurd ht List.not_mem_nil⟩
  fields := by
    unfold tables
    simp only [List.forall_mem_cons, List.forall_mem_map]
    refine ⟨fun r _ => ?_, fun q _ => ?_, fun c _ => ?_, fun t ht => absurd ht List.not_mem_nil⟩
    · exact Nat.le_of_ble_eq_true rfl
    · exact Nat.le_of_ble_eq_true rfl
    · exact Nat.le_of_ble_eq_true rfl

theorem plain_recordFields_iff (pid : Int) (r : ExecutionRecord) :
    (∀ field ∈ recordFields pid r, Table.PlainField newline comma field) ↔
      ∀ text ∈ r.texts, Table.PlainField newline comma text := by
  simp only [recordFields, ExecutionRecord.texts, List.forall_mem_cons, plainField_itoa,
    true_and]

theorem plain_atomFields_iff (atomId : GoString) (q : AtomQuery) :
    (∀ field ∈ atomFields atomId q, Table.PlainField newline comma field) ↔
      ∀ text ∈ q.texts, Table.PlainField newline comma text := by
  have hconfig : Table.PlainField newline comma (if atomId = q.id then str "Y" else str "N") := by
    split <;> decide
  simp only [atomFields, AtomQuery.texts, List.forall_mem_cons, plainField_itoa, hconfig, true_and]

theorem plain_tables_iff (o : Options) (pid : Int) (records : List ExecutionRecord)
    (atoms : List AtomQuery) (connectors : List AtomConnector) :
    (∀ t ∈ tables o pid records atoms connectors, ∀ row ∈ t.rows, ∀ field ∈ row,
        Table.PlainField newline comma field) ↔
      ∀ row ∈ texts records atoms connectors, ∀ text ∈ row, newline ∉ text ∧ comma ∉ text := by
  have hnone (t : Table Byte) (ht : t ∈ []) : ∀ row ∈ t.rows, ∀ field ∈ row,
      Table.PlainField newline comma field := absurd ht List.not_mem_nil
  have hatoms := plain_atomFields_iff (o .atomId)
  unfold tables texts
  simp only [List.forall_mem_cons, List.forall_mem_append, List.forall_mem_map,
    plain_recordFields_iff, hatoms]
  exact ⟨fun h => ⟨⟨h.1, h.2.1⟩, h.2.2.1⟩, fun h => ⟨h.1.1, h.1.2, h.2, hnone⟩⟩

/-- The rows of the three tables can be read back from the file exactly when no text has a
comma or a line feed in it. -/
theorem parse_written_iff (o : Options) (pid : Int) (records : List ExecutionRecord)
    (atoms : List AtomQuery) (connectors : List AtomConnector) :
    (written o pid records atoms connectors).file.map (Table.parse newline comma delimiter) =
        some [records.map (recordFields pid), atoms.map (atomFields (o .atomId)),
          connectors.map connectorFields] ↔
      ∀ row ∈ texts records atoms connectors, ∀ text ∈ row, newline ∉ text ∧ comma ∉ text := by
  rw [written_file, Option.map_some, Option.some.injEq, ← plain_tables_iff o pid]
  exact Table.parse_render_iff (wellFormed_tables o pid records atoms connectors)

/-- A process that is named with a comma. -/
theorem parse_written_comma :
    ¬ ∀ (o : Options) (pid : Int) (records : List ExecutionRecord) (atoms : List AtomQuery)
      (connectors : List AtomConnector),
      (written o pid records atoms connectors).file.map (Table.parse newline comma delimiter) =
        some [records.map (recordFields pid), atoms.map (atomFields (o .atomId)),
          connectors.map connectorFields] := by
  intro h
  have hparse := h defaultOptions 7 [⟨str "execution-1", str "2024-01-01T00:00:00Z",
    str "COMPLETE", str "Orders, daily", str "atom", str "atom-1", [.other, .float64 1200]⟩] [] []
  rw [written_file, Option.map_some, Option.some.injEq] at hparse
  have hplain := (plain_tables_iff ..).mp
    ((Table.parse_render_iff (wellFormed_tables ..)).mp hparse)
  revert hplain
  decide

end YcAgent.Capture.Boomi
