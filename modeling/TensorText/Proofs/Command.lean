/-
What `encode` writes, `inspect` reads.

Four things lie between the words of one command line and the report of the other.  The words
have to reach `encode` as they are, one input behind each option, even where they look like
options themselves; `readEncode_option` takes up one such pair.  What is printed ends in a line
break, which is a blank behind the closing brace and so is allowed even where trailing content
is refused.  It arrives as bytes, from standard input or from whatever a path is opened to, in
pieces of any size.  And the entries that are read are those of the tensors, so that the report
on them is known without another look at the text.
-/
import TensorText.Proofs.Runs

namespace TensorText

open Grammar

namespace Command

/-! ### Lines that encode -/

/-- The option before an input, in its long or its short form. -/
def inputOption (long : Bool) : String := if long then "--input" else "-i"

/-- The words that hand inputs to `encode`, each behind its option. -/
def inputWords (inputs : List (Bool × String)) : List String :=
  inputs.flatMap fun i => [inputOption i.1, i.2]

/-- The word behind an option is its value, whatever it looks like. -/
theorem readEncode_option (given : List String) (long : Bool) (value : String)
    (rest : List String) :
    readEncode given (inputOption long :: value :: rest) = readEncode (given ++ [value]) rest := by
  cases long with
  | true =>
      have hword : Word.ofArgument (inputOption true) = .long "input" none := by cbv
      rw [readEncode]
      simp only [hword]
      rfl
  | false =>
      have hword : Word.ofArgument (inputOption false) = .short ['i'] := by cbv
      rw [readEncode]
      simp only [hword]

theorem readEncode_inputWords (given : List String) (inputs : List (Bool × String)) :
    readEncode given (inputWords inputs) = .ok (.encode (given ++ inputs.map Prod.snd)) := by
  induction inputs generalizing given with
  | nil => simp [inputWords, readEncode]
  | cons i inputs ih =>
      rw [inputWords, List.flatMap_cons, List.cons_append, List.cons_append, List.nil_append,
        readEncode_option, ← inputWords, ih, List.map_cons, List.append_assoc,
        List.singleton_append]

/-- `encode` is handed its inputs in their order and as they are. -/
theorem read_encode (inputs : List (Bool × String)) :
    read ("encode" :: inputWords inputs) = .ok (.encode (inputs.map Prod.snd)) := by
  have hencode : read ("encode" :: inputWords inputs) = readEncode [] (inputWords inputs) := rfl
  rw [hencode, readEncode_inputWords, List.nil_append]

/-! ### Lines that inspect -/

/-- The words for a report in JSON on what a source holds, read strictly or not. -/
def reportFlags (strict : Bool) : List String :=
  "--json" :: if strict then ["--strict"] else []

theorem readInspect_reportFlags (file : Option String) (strict : Bool) :
    readInspect false file false false (reportFlags strict) = .ok (.inspect file true strict) := by
  have hjson : Word.ofArgument "--json" = .long "json" none := by cbv
  have hstrict : Word.ofArgument "--strict" = .long "strict" none := by cbv
  cases strict with
  | false => simp [reportFlags, readInspect, hjson]
  | true => simp [reportFlags, readInspect, hjson, hstrict]

theorem read_inspect_stdin (strict : Bool) :
    read ("inspect" :: reportFlags strict) = .ok (.inspect none true strict) :=
  readInspect_reportFlags none strict

theorem read_inspect_file {path : String} (hplain : Word.ofArgument path = .plain)
    (strict : Bool) :
    read ("inspect" :: path :: reportFlags strict) = .ok (.inspect (some path) true strict) := by
  have hinspect : read ("inspect" :: path :: reportFlags strict) =
      readInspect false none false false (path :: reportFlags strict) := rfl
  rw [hinspect, readInspect]
  simp [hplain, readInspect_reportFlags]

/-! ### Runs -/

/-- What `encode` has printed is a document, with the entries of the tensors it was given. -/
theorem reads_of_contents {ts : List Tensor} (hnames : ∀ t ∈ ts, IsName t.name.toList)
    {source : Source} (hsource : source.contents =
      .ok (Utf8.encode (encodeEntries (ts.map Tensor.toEntry) ++ "\n"))) (strict : Bool) :
    source.Reads strict (.ok ⟨ts.map Tensor.toEntry⟩) := by
  obtain ⟨hfailure, hbytes⟩ := Source.contents_eq_ok_iff.mp hsource
  have hentries : ∀ e ∈ ts.map Tensor.toEntry, IsName e.name.toList :=
    List.forall_mem_map.mpr hnames
  have hblank : ∀ c ∈ ['\n'], IsBlank c := by
    intro c hc
    rw [List.mem_singleton.mp hc]
    exact Or.inr (Or.inr (Or.inr rfl))
  have hbreak : String.ofList ['\n'] = "\n" := rfl
  have hdoc := ofText_encodeEntries_append hentries hblank ⟨strict⟩
  rw [hbreak] at hdoc
  have hparse : ((Settings.default.set (.strict strict)).parseSource source).value =
      .ok ⟨ts.map Tensor.toEntry⟩ := by
    have hoptions : (Settings.default.set (.strict strict)).options = ⟨strict⟩ := rfl
    rw [Settings.value_parseSource hfailure hbytes, Settings.value_parse, hoptions, hdoc]
    rfl
  rw [← hparse]
  exact Settings.reads_parseSource (Settings.default.set (.strict strict)) source

/--
**What `encode` writes, `inspect` reads.**  Inputs that are tensors reach `encode` as they
stand behind their options, and it prints one text for them.  If no name among them breaks the
rule for names, any line that asks `inspect` for a report in JSON, strictly or not, gets one
on exactly these tensors from that text, line break and all: from standard input, or from a path
that is opened to its bytes, in pieces of any size.
-/
theorem inspect_encode {inputs : List (Bool × String)} {ts : List Tensor}
    (hread : List.Forall₂ (fun v t => Argument.read v = .ok t) (inputs.map Prod.snd) ts)
    (hnames : ∀ t ∈ ts, IsName t.name.toList) :
    read ("encode" :: inputWords inputs) = .ok (.encode (inputs.map Prod.snd)) ∧
    ∃ out : String, out = encodeEntries (ts.map Tensor.toEntry) ++ "\n" ∧
      (∀ (openFile : String → Except SystemError Source) (stdin : Source),
        runLine openFile stdin ("encode" :: inputWords inputs) = .ok ⟨0, out, ""⟩) ∧
      (∀ strict : Bool,
        read ("inspect" :: reportFlags strict) = .ok (.inspect none true strict) ∧
        ∀ path : String, Word.ofArgument path = .plain →
          read ("inspect" :: path :: reportFlags strict) =
            .ok (.inspect (some path) true strict)) ∧
      ∀ (line : List String) (file : Option String) (strict : Bool),
        read line = .ok (.inspect file true strict) →
        ∀ (openFile : String → Except SystemError Source) (stdin : Source),
          (file = none ∨ file = some "-" → stdin.contents = .ok (Utf8.encode out) →
            runLine openFile stdin line =
              .ok ⟨0, report .json (ts.map Tensor.toEntry) ++ "\n", ""⟩) ∧
          ∀ (path : String) (source : Source), file = some path → path ≠ "-" →
            openFile path = .ok source → source.contents = .ok (Utf8.encode out) →
              runLine openFile stdin line =
                .ok ⟨0, report .json (ts.map Tensor.toEntry) ++ "\n", ""⟩ := by
  refine ⟨read_encode inputs, _, rfl, ?_, ?_, ?_⟩
  · intro openFile stdin
    exact (Runs.encoded hread).runLine_eq (read_encode inputs)
  · intro strict
    exact ⟨read_inspect_stdin strict, fun path hplain => read_inspect_file hplain strict⟩
  · intro line file strict hline openFile stdin
    have hreport {source : Source} (hopen : Opened openFile stdin file (.ok source))
        (hsource : source.contents =
          .ok (Utf8.encode (encodeEntries (ts.map Tensor.toEntry) ++ "\n"))) :
        runLine openFile stdin line =
          .ok ⟨0, report .json (ts.map Tensor.toEntry) ++ "\n", ""⟩ :=
      (Runs.inspected hopen (reads_of_contents hnames hsource strict)).runLine_eq hline
    constructor
    · rintro (rfl | rfl)
      · exact hreport .stdin
      · exact hreport .hyphen
    · rintro path source rfl hne hopen
      exact hreport (hopen ▸ .file hne)

/-- Inputs that look like options, among them one with a colon and a quote in its name and no
values; what is printed comes back from standard input and from a file, in two pieces each. -/
theorem inspect_encode_hyphens : ∃ ts : List Tensor,
    ts.map Tensor.name = ["-x", "--input", "a:\\\"\\"] ∧ ts.map Tensor.shape = [[2], [], [0]] ∧
      ts.map Tensor.values = [[⟨0x3FC00000⟩, ⟨0xFF800000⟩], [⟨0x7FC00000⟩], []] ∧
      List.Forall₂ (fun v t => Argument.read v = .ok t)
        ["-x:2:1.5,-inf", "--input::nan", "a:\\\"\\:0:"] ts ∧
      (∀ t ∈ ts, IsName t.name.toList) ∧
      ∃ out json : String,
        out = "\x7b\"-x\":\"AgAAAAAAAAA=;AADAPwAAgP8=\",\"--input\":\";AADAfw==\"," ++
          "\"a:\\\"\\\":\"AAAAAAAAAAA=;\"\x7d\n" ∧
        json = "\x7b\"count\":3,\"inputs\":[" ++
          "\x7b\"name\":\"-x\",\"shape\":[2],\"values\":[1.5,null]\x7d," ++
          "\x7b\"name\":\"--input\",\"shape\":[],\"values\":[null]\x7d," ++
          "\x7b\"name\":\"a:\\\\\\\"\\\\\",\"shape\":[0],\"values\":[]\x7d]\x7d" ∧
        ∃ (openFile : String → Except SystemError Source) (stdin : Source),
          openFile "/tmp/out" =
            .ok ⟨[(Utf8.encode out).take 9, (Utf8.encode out).drop 9], none⟩ ∧
          openFile "out" = .error ⟨2, "No such file or directory"⟩ ∧
          stdin = ⟨[(Utf8.encode out).take 7, (Utf8.encode out).drop 7], none⟩ ∧
          runLine openFile stdin
            ["encode", "--input", "-x:2:1.5,-inf", "-i", "--input::nan", "--input",
              "a:\\\"\\:0:"] = .ok ⟨0, out, ""⟩ ∧
          runLine openFile stdin ["inspect", "--json", "--strict"] = .ok ⟨0, json ++ "\n", ""⟩ ∧
          runLine openFile stdin ["inspect", "/tmp/out", "--json"] =
            .ok ⟨0, json ++ "\n", ""⟩ := by
  let x : Tensor := ⟨"-x", [2], [⟨0x3FC00000⟩, ⟨0xFF800000⟩], rfl⟩
  let input : Tensor := ⟨"--input", [], [⟨0x7FC00000⟩], rfl⟩
  let a : Tensor := ⟨"a:\\\"\\", [0], [], rfl⟩
  let inputs : List (Bool × String) :=
    [(true, "-x:2:1.5,-inf"), (false, "--input::nan"), (true, "a:\\\"\\:0:")]
  have hx : Argument.read "-x:2:1.5,-inf" = .ok x := by decide +kernel
  have hinput : Argument.read "--input::nan" = .ok input := by decide +kernel
  have ha : Argument.read "a:\\\"\\:0:" = .ok a := by decide +kernel
  have hread : List.Forall₂ (fun v t => Argument.read v = .ok t) (inputs.map Prod.snd)
      [x, input, a] := .cons hx (.cons hinput (.cons ha .nil))
  have hnames : ∀ t ∈ [x, input, a], IsName t.name.toList := by
    simp only [List.forall_mem_cons, List.not_mem_nil, false_imp_iff, implies_true, and_true]
    decide
  obtain ⟨-, out, hout, hencode, hlines, hinspect⟩ := inspect_encode hread hnames
  let openFile : String → Except SystemError Source := fun path =>
    if path = "/tmp/out" then .ok ⟨[(Utf8.encode out).take 9, (Utf8.encode out).drop 9], none⟩
    else .error ⟨2, "No such file or directory"⟩
  have hopen : openFile "/tmp/out" =
      .ok ⟨[(Utf8.encode out).take 9, (Utf8.encode out).drop 9], none⟩ := if_pos rfl
  refine ⟨[x, input, a], rfl, rfl, rfl, hread, hnames, out,
    report .json ([x, input, a].map Tensor.toEntry), ?_, by decide +kernel, openFile, _, hopen,
    if_neg (by decide), rfl, hencode _ _, ?_, ?_⟩
  · rw [hout]
    decide +kernel
  · refine (hinspect _ none true (hlines true).1 _ _).1 (Or.inl rfl) ?_
    rw [Source.contents_eq_ok_iff]
    exact ⟨rfl, by simp⟩
  · refine (hinspect _ (some "/tmp/out") false ((hlines false).2 _ (by cbv)) _ _).2 _ _ rfl
      (by decide) hopen ?_
    rw [Source.contents_eq_ok_iff]
    exact ⟨rfl, by simp⟩

end Command

end TensorText
