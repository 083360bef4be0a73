/-
What a run comes to.

`Runs` names all the ways a command can end, together with what each of them leaves: `encode`
writes the tensors that its arguments spell, or complains of the first that spells none, and
`inspect` opens a source, reads it and finds text in it that spells a document, or complains of the
first of these that fails.  A run ends in one of these ways and leaves nothing else, so a complaint
never stands beside a part of a result.  No way of `inspect` looks at the payloads of the document:
what is wrong with them is part of the report.

`Prints` says of a result that nothing of it is missing, without saying how it is written: there is
a text for each tensor, or the report has a description or a row for each entry.

What a path leads to is up to the function that opens files.  Nothing is assumed of it.
-/
import TensorText.Command.Run
import TensorText.Proofs.Report
import TensorText.Proofs.Source
import TensorText.Proofs.Steps
import TensorText.Proofs.Table

namespace TensorText

open Source (beforeZero)

/-! ### Complaints -/

/-- Every fault of an argument has something to say. -/
theorem Argument.chain_ne_nil (fault : Argument.Fault) : fault.chain ≠ [] := by
  cases fault <;> exact List.cons_ne_nil _ _

/-- Every failure has something to say. -/
theorem Failure.chain_ne_nil (failure : Failure) : failure.chain ≠ [] := by
  cases failure <;> exact List.cons_ne_nil _ _

/-! ### Documents from sources -/

/-- What reading the bytes of a source as a document comes to. -/
inductive Source.Reads (source : Source) (strict : Bool) : Except Failure Document → Prop
  | unreadable {reason : String} (h : source.contents = .error reason) :
      Reads source strict (.error (.unreadable reason))
  /-- The bytes before the first zero are no text. -/
  | notText {bytes : List UInt8} {fault : Utf8.Fault} (h : source.contents = .ok bytes)
      (hfault : Utf8.decode (beforeZero bytes) = .error fault) :
      Reads source strict (.error (.notText fault))
  | malformed {bytes : List UInt8} {text : String} {d : Diagnostic}
      (h : source.contents = .ok bytes) (htext : Utf8.encode text = beforeZero bytes)
      (hd : Document.ofText text ⟨strict⟩ = .error d) :
      Reads source strict (.error (.malformed d))
  | document {bytes : List UInt8} {text : String} {d : Document}
      (h : source.contents = .ok bytes) (htext : Utf8.encode text = beforeZero bytes)
      (hd : Document.ofText text ⟨strict⟩ = .ok d) : Reads source strict (.ok d)

/-- There is a document in a source if it can be read, the bytes before its first zero are text,
and a document is what the text spells. -/
theorem Source.reads_ok_iff {source : Source} {strict : Bool} {d : Document} :
    source.Reads strict (.ok d) ↔ ∃ bytes text, source.contents = .ok bytes ∧
      Utf8.encode text = beforeZero bytes ∧ Document.ofText text ⟨strict⟩ = .ok d := by
  constructor
  · intro h
    cases h with
    | document h htext hd => exact ⟨_, _, h, htext, hd⟩
  · rintro ⟨bytes, text, h, htext, hd⟩
    exact .document h htext hd

namespace Settings

variable {source : Source} {s : Settings}

theorem reads_parseSource (s : Settings) (source : Source) :
    source.Reads s.strict (s.parseSource source).value := by
  cases hcontents : source.contents with
  | error reason =>
      rw [parseSource_of_failure s hcontents]
      exact .unreadable hcontents
  | ok bytes =>
      cases hdecode : Utf8.decode (beforeZero bytes) with
      | error fault =>
          have hvalue : (s.parseSource source).value = .error (.notText fault) := by
            rw [beforeZero] at hdecode
            simp only [parseSource, hcontents, hdecode]
            rfl
          rw [hvalue]
          exact .notText hcontents hdecode
      | ok text =>
          have htext := Utf8.decode_eq_ok_iff.mp hdecode
          rw [parseSource_of_text s hcontents htext, value_parse]
          cases hd : Document.ofText text s.options with
          | error d => exact .malformed hcontents htext hd
          | ok d => exact .document hcontents htext hd

theorem value_of_reads {result : Except Failure Document} (h : source.Reads s.strict result) :
    (s.parseSource source).value = result := by
  cases h with
  | unreadable h =>
      rw [parseSource_of_failure s h]
      rfl
  | notText h hfault =>
      rw [beforeZero] at hfault
      simp only [parseSource, h, hfault]
      rfl
  | malformed h htext hd =>
      have hdoc : Document.ofText _ s.options = .error _ := hd
      rw [parseSource_of_text s h htext, value_parse, hdoc]
      rfl
  | document h htext hd =>
      have hdoc : Document.ofText _ s.options = .ok _ := hd
      rw [parseSource_of_text s h htext, value_parse, hdoc]
      rfl

end Settings

/-! ### Complete reports -/

/-- The text is a report on the entries, and none of them is missing. -/
inductive Report.Complete (entries : List Entry) : ReportMode → String → Prop
  /-- One document, for an object with the number of the entries and a description of each. -/
  | json {text : String} {count : Json.Tree} {inputs : List Json.Tree}
      (hcount : IsInteger entries.length count) (hinputs : List.Forall₂ Describes entries inputs)
      (h : Json.IsDocument text.toList (.object [("count", count), ("inputs", .array inputs)])) :
      Complete entries .json text
  /-- A header and a row for each entry, in the same columns. -/
  | table {nw sw : Nat} {head : String} {rows : List String} (hne : entries ≠ [])
      (hhead : Row.Laid ⟨"NAME", "SHAPE", "VALUES"⟩ nw sw head)
      (hrows : List.Forall₂ (fun e text => ∃ r, Shows e r ∧ r.Laid nw sw text) entries rows) :
      Complete entries .table ("\n".intercalate (head :: rows))
  /-- There is nothing to be laid in columns. -/
  | empty (h : entries = []) : Complete entries .table "(no inputs)"

/-- **Any report is complete**, whatever the entries hold. -/
theorem Report.complete_report (mode : ReportMode) (entries : List Entry) :
    Complete entries mode (report mode entries) := by
  cases mode with
  | json =>
      obtain ⟨count, inputs, hcount, hinputs, h⟩ := exists_document entries
      exact .json hcount hinputs h
  | table =>
      by_cases hne : entries = []
      · rw [report, table, if_pos hne]
        exact .empty hne
      · rw [report, table_eq hne]
        exact .table hne (laid_header entries) (laid_rows entries)

/-! ### Complete documents -/

/-- The text names the tensor and holds its shape and its values in base64. -/
inductive Tensor.IsWritten (t : Tensor) : String → Prop
  | mk {dimensions values : String}
      (hdimensions : Base64.decode dimensions.toList = .ok t.toEntry.dimensions)
      (hvalues : Base64.decode values.toList = .ok t.toEntry.values) :
      IsWritten t ("\"" ++ t.name ++ "\":\"" ++ dimensions ++ ";" ++ values ++ "\"")

theorem Tensor.isWritten_encode (t : Tensor) : t.IsWritten t.toEntry.encode := by
  refine .mk ?_ ?_
  · rw [String.toList_ofList]
    exact Base64.decode_eq_ok_iff.mpr rfl
  · rw [String.toList_ofList]
    exact Base64.decode_eq_ok_iff.mpr rfl

theorem forall₂_isWritten (tensors : List Tensor) :
    List.Forall₂ Tensor.IsWritten tensors ((tensors.map Tensor.toEntry).map Entry.encode) := by
  rw [List.map_map, List.forall₂_map_right_iff, List.forall₂_same]
  exact fun t _ => t.isWritten_encode

namespace Command

variable {openFile : String → Except SystemError Source} {stdin : Source}

/-! ### Ends of runs -/

/-- What opening the source for `inspect` comes to. -/
inductive Opened (openFile : String → Except SystemError Source) (stdin : Source) :
    Option String → Except SystemError Source → Prop
  | stdin : Opened openFile stdin none (.ok stdin)
  | hyphen : Opened openFile stdin (some "-") (.ok stdin)
  | file {path : String} (h : path ≠ "-") : Opened openFile stdin (some path) (openFile path)

/-- How a command ends, and what is left then. -/
inductive Runs (openFile : String → Except SystemError Source) (stdin : Source) :
    Command → Outcome → Prop
  /-- Every argument spells a tensor. -/
  | encoded {inputs : List String} {tensors : List Tensor}
      (h : List.Forall₂ (fun v t => Argument.read v = .ok t) inputs tensors) :
      Runs openFile stdin (.encode inputs)
        ⟨0, encodeEntries (tensors.map Tensor.toEntry) ++ "\n", ""⟩
  /-- An argument spells none, and it is the first such. -/
  | refused {before after : List String} {v : String} {fault : Argument.Fault}
      (hbefore : ∀ x ∈ before, ∃ t, Argument.read x = .ok t)
      (h : Argument.read v = .error fault) :
      Runs openFile stdin (.encode (before ++ v :: after))
        ⟨1, "", "(error) " ++ ": ".intercalate fault.chain ++ "\n"⟩
  /-- The source can be opened, and there is a document in it. -/
  | inspected {file : Option String} {json strict : Bool} {source : Source} {d : Document}
      (hopen : Opened openFile stdin file (.ok source)) (h : source.Reads strict (.ok d)) :
      Runs openFile stdin (.inspect file json strict)
        ⟨0, report (if json then .json else .table) d.entries ++ "\n", ""⟩
  /-- The source can be opened, but there is no document in it. -/
  | unread {file : Option String} {json strict : Bool} {source : Source} {failure : Failure}
      (hopen : Opened openFile stdin file (.ok source))
      (h : source.Reads strict (.error failure)) :
      Runs openFile stdin (.inspect file json strict)
        ⟨1, "", "(error) " ++ ": ".intercalate failure.chain ++ "\n"⟩
  /-- The file cannot be opened. -/
  | unopened {path : String} {json strict : Bool} {e : SystemError}
      (hopen : Opened openFile stdin (some path) (.error e)) :
      Runs openFile stdin (.inspect (some path) json strict)
        ⟨1, "", "(error) " ++ ": ".intercalate ["Failed to read " ++ path, e.message] ++ "\n"⟩

/-- The text is the whole result of a command. -/
inductive Prints (openFile : String → Except SystemError Source) (stdin : Source) :
    Command → String → Prop
  /-- The tensors that the arguments spell, in their order. -/
  | tensors {inputs texts : List String} {tensors : List Tensor}
      (h : List.Forall₂ (fun v t => Argument.read v = .ok t) inputs tensors)
      (htexts : List.Forall₂ Tensor.IsWritten tensors texts) :
      Prints openFile stdin (.encode inputs) ("\x7b" ++ ",".intercalate texts ++ "\x7d")
  /-- A report on what the source holds. -/
  | report {file : Option String} {json strict : Bool} {source : Source} {d : Document}
      {text : String} (hopen : Opened openFile stdin file (.ok source))
      (h : source.Reads strict (.ok d))
      (htext : Report.Complete d.entries (if json then .json else .table) text) :
      Prints openFile stdin (.inspect file json strict) text

theorem runLine_of_read {line : List String} {command : Command} (h : read line = .ok command) :
    runLine openFile stdin line = .ok (command.run (opened openFile stdin command)) := by
  rw [runLine, h]
  rfl

theorem opened_eq_iff {file : Option String} {json strict : Bool}
    {result : Except SystemError Source} :
    opened openFile stdin (.inspect file json strict) = result ↔
      Opened openFile stdin file result := by
  constructor
  · rintro rfl
    cases file with
    | none => exact .stdin
    | some path =>
        by_cases h : path = "-"
        · rw [opened, path?, if_pos h, h]
          exact .hyphen
        · rw [opened, path?, if_neg h]
          exact .file h
  · intro h
    cases h with
    | stdin => rfl
    | hyphen => rfl
    | file h => rw [opened, path?, if_neg h]

theorem runInspect_eq (strict json : Bool) (source : Source) :
    runInspect strict json source =
      match ((Settings.default.set (.strict strict)).parseSource source).value with
      | .error failure => .failure failure.chain
      | .ok d => .success (report (if json then .json else .table) d.entries) := rfl

theorem runs_run (openFile : String → Except SystemError Source) (stdin : Source)
    (command : Command) :
    Runs openFile stdin command (command.run (opened openFile stdin command)) := by
  cases command with
  | encode inputs =>
      rw [run, runEncode]
      cases hread : inputs.mapM Argument.read with
      | ok tensors => exact .encoded (mapM_eq_ok.mp hread)
      | error fault =>
          obtain ⟨before, v, after, rfl, hbefore, hv⟩ := mapM_eq_error.mp hread
          exact .refused hbefore hv
  | inspect file json strict =>
      cases hopened : opened openFile stdin (.inspect file json strict) with
      | ok source =>
          have hopen := opened_eq_iff.mp hopened
          have hreads := Settings.reads_parseSource (Settings.default.set (.strict strict)) source
          rw [run, runInspect_eq]
          cases hvalue : ((Settings.default.set (.strict strict)).parseSource source).value with
          | ok d => exact .inspected hopen (hvalue ▸ hreads)
          | error failure => exact .unread hopen (hvalue ▸ hreads)
      | error e =>
          cases file with
          | none => cases hopened
          | some path => exact .unopened (opened_eq_iff.mp hopened)

theorem Runs.run_eq {command : Command} {outcome : Outcome}
    (h : Runs openFile stdin command outcome) :
    command.run (opened openFile stdin command) = outcome := by
  cases h with
  | encoded h =>
      rw [run, runEncode, mapM_eq_ok.mpr h]
      rfl
  | refused hbefore h =>
      rw [run, runEncode, mapM_eq_error.mpr ⟨_, _, _, rfl, hbefore, h⟩]
      rfl
  | @inspected file json strict source d hopen h =>
      have hvalue := Settings.value_of_reads (s := Settings.default.set (.strict strict)) h
      rw [opened_eq_iff.mpr hopen, run, runInspect_eq, hvalue]
      rfl
  | @unread file json strict source failure hopen h =>
      have hvalue := Settings.value_of_reads (s := Settings.default.set (.strict strict)) h
      rw [opened_eq_iff.mpr hopen, run, runInspect_eq, hvalue]
      rfl
  | unopened hopen =>
      rw [opened_eq_iff.mpr hopen]
      rfl

/-- A line that is read as a command leaves what the command does. -/
theorem Runs.runLine_eq {line : List String} {command : Command} {outcome : Outcome}
    (h : Runs openFile stdin command outcome) (hline : read line = .ok command) :
    runLine openFile stdin line = .ok outcome := by
  rw [runLine_of_read hline, h.run_eq]

/-! ### Exit codes -/

/-- A run leaves its whole result and nothing else, or a complaint and nothing else. -/
theorem Runs.complete_or_error {command : Command} {outcome : Outcome}
    (h : Runs openFile stdin command outcome) :
    (∃ out, Prints openFile stdin command out ∧ outcome = ⟨0, out ++ "\n", ""⟩) ∨
      ∃ chain, chain ≠ [] ∧
        outcome = ⟨1, "", "(error) " ++ ": ".intercalate chain ++ "\n"⟩ := by
  cases h with
  | encoded h => exact Or.inl ⟨_, .tensors h (forall₂_isWritten _), rfl⟩
  | refused hbefore h => exact Or.inr ⟨_, Argument.chain_ne_nil _, rfl⟩
  | inspected hopen h => exact Or.inl ⟨_, .report hopen h (Report.complete_report _ _), rfl⟩
  | unread hopen h => exact Or.inr ⟨_, Failure.chain_ne_nil _, rfl⟩
  | unopened hopen => exact Or.inr ⟨_, List.cons_ne_nil _ _, rfl⟩

theorem Runs.code_encode_iff {inputs : List String} {outcome : Outcome}
    (h : Runs openFile stdin (.encode inputs) outcome) :
    outcome.code = 0 ↔ ∀ v ∈ inputs, ∃ t, Argument.read v = .ok t := by
  cases h with
  | encoded h =>
      have hall := exists_ok_of_mapM (mapM_eq_ok.mpr h)
      exact ⟨fun _ => hall, fun _ => rfl⟩
  | @refused before after v fault hbefore hv =>
      constructor
      · intro hcode
        cases hcode
      · intro hall
        obtain ⟨t, ht⟩ := hall v (by simp)
        rw [hv] at ht
        cases ht

/-- A run of `inspect` succeeds if a source is opened that holds a document. -/
theorem Runs.code_inspect_iff {file : Option String} {json strict : Bool} {outcome : Outcome}
    (h : Runs openFile stdin (.inspect file json strict) outcome) :
    outcome.code = 0 ↔
      ∃ source d, Opened openFile stdin file (.ok source) ∧ source.Reads strict (.ok d) := by
  constructor
  · intro hcode
    cases h with
    | inspected hopen h => exact ⟨_, _, hopen, h⟩
    | unread hopen h => cases hcode
    | unopened hopen => cases hcode
  · rintro ⟨source, d, hopen, hreads⟩
    have hinspected : Runs openFile stdin (.inspect file json strict)
        ⟨0, report (if json then .json else .table) d.entries ++ "\n", ""⟩ :=
      .inspected hopen hreads
    rw [← h.run_eq, hinspected.run_eq]

/--
**A run prints a complete result or nothing but a complaint.**  What a line that runs a command
leaves is what `Runs` says, and what it prints after a success is the whole result.  `encode`
succeeds exactly if each of its arguments spells a tensor, and `inspect` exactly if its source can
be opened and read, the bytes before the first zero are text, and the text spells a document under
the strictness that was asked for, whatever the payloads of the document are.
-/
theorem runLine_eq_iff_runs (openFile : String → Except SystemError Source) (stdin : Source)
    {line : List String} {command : Command} (hline : read line = .ok command) :
    (∀ outcome, runLine openFile stdin line = .ok outcome ↔
      Runs openFile stdin command outcome) ∧
    ∃ outcome, runLine openFile stdin line = .ok outcome ∧
      ((∃ out, Prints openFile stdin command out ∧ outcome = ⟨0, out ++ "\n", ""⟩) ∨
        ∃ chain, chain ≠ [] ∧
          outcome = ⟨1, "", "(error) " ++ ": ".intercalate chain ++ "\n"⟩) ∧
      (∀ inputs, command = .encode inputs →
        (outcome.code = 0 ↔ ∀ v ∈ inputs, ∃ t, Argument.read v = .ok t)) ∧
      ∀ file json strict, command = .inspect file json strict →
        (outcome.code = 0 ↔ ∃ source d, Opened openFile stdin file (.ok source) ∧
          ∃ bytes text, source.contents = .ok bytes ∧ Utf8.encode text = beforeZero bytes ∧
            Document.ofText text ⟨strict⟩ = .ok d) := by
  have hruns := runs_run openFile stdin command
  have hrun := hruns.runLine_eq hline
  refine ⟨fun outcome => ⟨?_, fun h => h.runLine_eq hline⟩, _, hrun, hruns.complete_or_error,
    ?_, ?_⟩
  · intro h
    rw [hrun] at h
    cases h
    exact hruns
  · rintro inputs rfl
    exact hruns.code_encode_iff
  · rintro file json strict rfl
    simp only [hruns.code_inspect_iff, Source.reads_ok_iff]

/-- Tensors without values and with one that is no number; the first of two bad arguments; a
document with a payload that is short of a value, and one with a payload that is ragged, in the
only file there is. -/
theorem runLine_eq_iff_runs_bad : ∃ (openFile : String → Except SystemError Source)
    (stdin : Source),
    openFile "/tmp/in" = .ok ⟨[Utf8.encode "\x7b\"é\":\"AQ==;\"\x7d\n"], none⟩ ∧
    openFile "in" = .error ⟨2, "No such file or directory"⟩ ∧
    stdin = ⟨[Utf8.encode "\x7b\"a\":\";\",\"b\":\"AgAAAAAAAAA=;AADAPwAAwH8=\"\x7d", [0, 255]],
      none⟩ ∧
    runLine openFile stdin ["encode", "-i", "b:2:1.5,nan", "-i", ":0:"] =
      .ok ⟨0, "\x7b\"b\":\"AgAAAAAAAAA=;AADAPwAAwH8=\",\"\":\"AAAAAAAAAAA=;\"\x7d\n", ""⟩ ∧
    runLine openFile stdin ["encode", "-i", ":0:", "--input", "a:b", "-i", "1"] =
      .ok ⟨1, "", "(error) expected NAME:DIMS:VALUES, got 'a:b'\n"⟩ ∧
    runLine openFile stdin ["inspect", "--json", "--strict"] =
      .ok ⟨0, "\x7b\"count\":2,\"inputs\":[" ++
        "\x7b\"dimension_bytes\":0,\"error\":\"input 'a': shape holds 1 elements but " ++
          "0 values were given\",\"name\":\"a\",\"value_bytes\":0\x7d," ++
        "\x7b\"name\":\"b\",\"shape\":[2],\"values\":[1.5,null]\x7d]\x7d\n", ""⟩ ∧
    runLine openFile stdin ["inspect", "/tmp/in"] =
      .ok ⟨0, "NAME  SHAPE  VALUES\né     ?      (input 'é': dimensions byte length 1 is not " ++
        "a multiple of 8)\n", ""⟩ ∧
    runLine openFile stdin ["inspect", "in"] =
      .ok ⟨1, "", "(error) Failed to read in: No such file or directory (os error 2)\n"⟩ := by
  let ragged : String := "\x7b\"é\":\"AQ==;\"\x7d\n"
  let mixed : String := "\x7b\"a\":\";\",\"b\":\"AgAAAAAAAAA=;AADAPwAAwH8=\"\x7d"
  let openFile : String → Except SystemError Source := fun path =>
    if path = "/tmp/in" then .ok ⟨[Utf8.encode ragged], none⟩
    else .error ⟨2, "No such file or directory"⟩
  let stdin : Source := ⟨[Utf8.encode mixed, [0, 255]], none⟩
  have hin : openFile "/tmp/in" = .ok ⟨[Utf8.encode ragged], none⟩ := if_pos rfl
  have hout : openFile "in" = .error ⟨2, "No such file or directory"⟩ := if_neg (by decide)
  have hopen : Opened openFile stdin (some "/tmp/in") (openFile "/tmp/in") := .file (by decide)
  have hmissing : Opened openFile stdin (some "in") (openFile "in") := .file (by decide)
  rw [hin] at hopen
  rw [hout] at hmissing
  have hempty : Argument.read ":0:" = .ok ⟨"", [0], [], rfl⟩ := by decide +kernel
  have hb : Argument.read "b:2:1.5,nan" =
      .ok ⟨"b", [2], [⟨0x3FC00000⟩, ⟨0x7FC00000⟩], rfl⟩ := by decide +kernel
  have hbad : Argument.read "a:b" = .error (.sections "a:b") := by decide +kernel
  have hgood : ∀ x ∈ [":0:"], ∃ t, Argument.read x = .ok t := by
    intro x hx
    rw [List.mem_singleton.mp hx]
    exact ⟨_, hempty⟩
  have hmixed : Document.ofText mixed ⟨true⟩ = .ok ⟨[⟨"a", [], []⟩,
      ⟨"b", [2, 0, 0, 0, 0, 0, 0, 0], [0, 0, 0xC0, 0x3F, 0, 0, 0xC0, 0x7F]⟩]⟩ := by
    decide +kernel
  have hragged : Document.ofText ragged ⟨false⟩ = .ok ⟨[⟨"é", [1], []⟩]⟩ := by decide +kernel
  refine ⟨openFile, stdin, hin, hout, rfl, ?_, ?_, ?_, ?_, ?_⟩
  · have hline : read ["encode", "-i", "b:2:1.5,nan", "-i", ":0:"] =
        .ok (.encode ["b:2:1.5,nan", ":0:"]) := by decide +kernel
    rw [((runLine_eq_iff_runs openFile stdin hline).1 _).mpr
      (.encoded (.cons hb (.cons hempty .nil)))]
    decide +kernel
  · have hline : read ["encode", "-i", ":0:", "--input", "a:b", "-i", "1"] =
        .ok (.encode [":0:", "a:b", "1"]) := by decide +kernel
    exact ((runLine_eq_iff_runs openFile stdin hline).1 _).mpr (.refused hgood hbad)
  · have hline : read ["inspect", "--json", "--strict"] = .ok (.inspect none true true) := by
      decide +kernel
    rw [((runLine_eq_iff_runs openFile stdin hline).1 _).mpr
      (.inspected .stdin (.document rfl (by decide +kernel) hmixed))]
    decide +kernel
  · have hline : read ["inspect", "/tmp/in"] = .ok (.inspect (some "/tmp/in") false false) := by
      decide +kernel
    rw [((runLine_eq_iff_runs openFile stdin hline).1 _).mpr
      (.inspected hopen (.document rfl (by decide +kernel) hragged))]
    decide +kernel
  · have hline : read ["inspect", "in"] = .ok (.inspect (some "in") false false) := by
      decide +kernel
    exact ((runLine_eq_iff_runs openFile stdin hline).1 _).mpr (.unopened hmissing)

end Command

end TensorText
