/-
What comes of preparing a feature string for a model.

The checks stand in a row, and the first that fails decides, whatever else is wrong: is there
a model, are feature strings read, is the text well formed, is every entry a tensor, and has
the model every input.  `Decoding` and `Preparation` tell what each check looks at and what it
leaves, without mentioning how the answer is computed; where a check runs over a list, it is
the first item at fault that is named, and everything before it is sound.  The two theorems
`value_tensors_iff` and `value_tensorsFor_iff` say that a request is answered in exactly these
ways.
-/
import TensorText.Proofs.Features
import TensorText.Proofs.Steps

namespace TensorText

/-- What comes of turning a feature string into tensors. -/
inductive Decoding (s : Settings) (text : Option String) : Except Failure (List Tensor) → Prop
  /-- Feature strings are not read. -/
  | disabled (hs : s.enabled = false) : Decoding s text (.error .disabled)
  /-- The text spells no document. -/
  | malformed {d : Diagnostic} (hs : s.enabled = true)
      (hd : Document.ofText (text.getD "") s.options = .error d) :
      Decoding s text (.error (.malformed d))
  /-- An entry is no tensor, and it is the first such. -/
  | notTensor {doc : Document} {before after : List Entry} {e : Entry} {fault : InputFault}
      (hs : s.enabled = true) (hdoc : Document.ofText (text.getD "") s.options = .ok doc)
      (hsplit : doc.entries = before ++ e :: after)
      (hbefore : ∀ x ∈ before, ∃ t, Tensor.ofEntry x = .ok t)
      (he : Tensor.ofEntry e = .error fault) : Decoding s text (.error (.notTensor fault))
  /-- Every entry is a tensor. -/
  | decoded {doc : Document} {ts : List Tensor} (hs : s.enabled = true)
      (hdoc : Document.ofText (text.getD "") s.options = .ok doc)
      (hts : List.Forall₂ (fun e t => Tensor.ofEntry e = .ok t) doc.entries ts) :
      Decoding s text (.ok ts)

/-- What comes of preparing a feature string for a model, if there is one. -/
inductive Preparation (s : Settings) (text : Option String) :
    Option BoundModel → Except Failure (List Tensor) → Prop
  /-- There is no model, and nothing else is looked at. -/
  | noModel : Preparation s text none (.error .noModel)
  /-- The feature string cannot be turned into tensors. -/
  | undecoded {model : BoundModel} {failure : Failure} (h : Decoding s text (.error failure)) :
      Preparation s text (some model) (.error failure)
  /-- The model has no input for a tensor, and it is the first such. -/
  | unknownInput {model : BoundModel} {before after : List Tensor} {t : Tensor}
      (h : Decoding s text (.ok (before ++ t :: after)))
      (hbefore : ∀ x ∈ before, x.name ∈ model.signature.inputs)
      (ht : t.name ∉ model.signature.inputs) :
      Preparation s text (some model) (.error (.unknownInput t.name))
  /-- The model has an input for every tensor. -/
  | ready {model : BoundModel} {ts : List Tensor} (h : Decoding s text (.ok ts))
      (hall : ∀ t ∈ ts, t.name ∈ model.signature.inputs) :
      Preparation s text (some model) (.ok ts)

namespace Settings

variable {s : Settings} {text : Option String}

/-! ### Turning a feature string into tensors -/

theorem value_tensors_disabled (hs : s.enabled = false) (text : Option String) :
    (s.tensors text).value = .error .disabled := by
  simp only [tensors, Logged.value_bind, read, hs]
  rfl

theorem value_tensors_malformed (hs : s.enabled = true) {d : Diagnostic}
    (hd : Document.ofText (text.getD "") s.options = .error d) :
    (s.tensors text).value = .error (.malformed d) := by
  rw [value_tensors hs, hd]
  rfl

theorem value_tensors_document (hs : s.enabled = true) {doc : Document}
    (hdoc : Document.ofText (text.getD "") s.options = .ok doc) :
    (s.tensors text).value = (doc.entries.mapM Tensor.ofEntry).mapError .notTensor := by
  rw [value_tensors hs, hdoc]
  rfl

/-- A feature string is turned into tensors, or fails to be, in the ways of `Decoding`. -/
theorem value_tensors_iff {result : Except Failure (List Tensor)} :
    (s.tensors text).value = result ↔ Decoding s text result := by
  constructor
  · rintro rfl
    cases hs : s.enabled with
    | false =>
        rw [value_tensors_disabled hs]
        exact .disabled hs
    | true =>
        cases hdoc : Document.ofText (text.getD "") s.options with
        | error d =>
            rw [value_tensors_malformed hs hdoc]
            exact .malformed hs hdoc
        | ok doc =>
            rw [value_tensors_document hs hdoc]
            cases hmap : doc.entries.mapM Tensor.ofEntry with
            | error fault =>
                obtain ⟨before, e, after, hsplit, hbefore, he⟩ := mapM_eq_error.mp hmap
                exact .notTensor hs hdoc hsplit hbefore he
            | ok ts => exact .decoded hs hdoc (mapM_eq_ok.mp hmap)
  · intro h
    cases h with
    | disabled hs => exact value_tensors_disabled hs text
    | malformed hs hd => exact value_tensors_malformed hs hd
    | notTensor hs hdoc hsplit hbefore he =>
        rw [value_tensors_document hs hdoc, mapM_eq_error.mpr ⟨_, _, _, hsplit, hbefore, he⟩]
        rfl
    | decoded hs hdoc hts =>
        rw [value_tensors_document hs hdoc, mapM_eq_ok.mpr hts]
        rfl

/-! ### Preparing them for a model -/

theorem find?_unknown_eq_none {signature : Signature} {ts : List Tensor} :
    (ts.find? fun t => !signature.takes t.name) = none ↔
      ∀ t ∈ ts, t.name ∈ signature.inputs := by
  simp [List.find?_eq_none, Signature.takes]

theorem find?_unknown_eq_some {signature : Signature} {ts : List Tensor} {t : Tensor} :
    (ts.find? fun t => !signature.takes t.name) = some t ↔
      t.name ∉ signature.inputs ∧ ∃ before after : List Tensor,
        ts = before ++ t :: after ∧ ∀ x ∈ before, x.name ∈ signature.inputs := by
  simp [List.find?_eq_some_iff_append, Signature.takes]

/-- A feature string is prepared for a model, or fails to be, in the ways of `Preparation`. -/
theorem value_tensorsFor_iff {model : Option BoundModel}
    {result : Except Failure (List Tensor)} :
    (s.tensorsFor model text).value = result ↔ Preparation s text model result := by
  constructor
  · rintro rfl
    cases model with
    | none => exact .noModel
    | some model =>
        rw [value_tensorsFor]
        cases h : (s.tensors text).value with
        | error failure => exact .undecoded (value_tensors_iff.mp h)
        | ok ts =>
            have hdecoding := value_tensors_iff.mp h
            rw [ok_bind]
            cases hfind : ts.find? fun t => !model.signature.takes t.name with
            | none => exact .ready hdecoding (find?_unknown_eq_none.mp hfind)
            | some t =>
                obtain ⟨ht, before, after, rfl, hbefore⟩ := find?_unknown_eq_some.mp hfind
                exact .unknownInput hdecoding hbefore ht
  · intro h
    cases h with
    | noModel => rfl
    | undecoded h =>
        rw [value_tensorsFor, value_tensors_iff.mpr h]
        rfl
    | unknownInput h hbefore ht =>
        rw [value_tensorsFor, value_tensors_iff.mpr h, ok_bind,
          find?_unknown_eq_some.mpr ⟨ht, _, _, rfl, hbefore⟩]
    | ready h hall =>
        rw [value_tensorsFor, value_tensors_iff.mpr h, ok_bind, find?_unknown_eq_none.mpr hall]

/-- Of a model only the names of its inputs matter, in no order and however often they occur. -/
theorem tensorsFor_congr {model model' : BoundModel}
    (h : ∀ name, name ∈ model.signature.inputs ↔ name ∈ model'.signature.inputs)
    (text : Option String) : s.tensorsFor (some model) text = s.tensorsFor (some model') text := by
  have htakes : model.signature.takes = model'.signature.takes := by
    funext name
    simp [Signature.takes, h name]
  simp only [tensorsFor, htakes]

/--
**Preparing a feature string is a row of checks, and the first that fails decides.**  The
answer is told by `Preparation` for every settings, text and model, and in no other way; each
failure is of the kind that its check has; tensors that are handed out are those of the
feature string itself; and two models with the same names of inputs are given the same, down
to what is logged.
-/
theorem tensorsFor_staged (s : Settings) (text : Option String) :
    (∀ (model : Option BoundModel) (result : Except Failure (List Tensor)),
      (s.tensorsFor model text).value = result ↔ Preparation s text model result) ∧
    (Failure.noModel.kind = .noModel ∧ Failure.disabled.kind = .rank ∧
      (∀ d, (Failure.malformed d).kind = .text) ∧
      (∀ fault, (Failure.notTensor fault).kind = .rank) ∧
      ∀ name, (Failure.unknownInput name).kind = .input) ∧
    (∀ (model : Option BoundModel) (ts : List Tensor),
      (s.tensorsFor model text).value = .ok ts → (s.tensors text).value = .ok ts) ∧
    ∀ model model' : BoundModel,
      (∀ name, name ∈ model.signature.inputs ↔ name ∈ model'.signature.inputs) →
        s.tensorsFor (some model) text = s.tensorsFor (some model') text := by
  refine ⟨fun model result => value_tensorsFor_iff, ?_, ?_,
    fun model model' h => tensorsFor_congr h text⟩
  · exact ⟨rfl, rfl, fun d => rfl, fun fault => rfl, fun name => rfl⟩
  · intro model ts h
    cases value_tensorsFor_iff.mp h with
    | ready h hall => exact value_tensors_iff.mpr h

/-- The model has no input `u`, but that is of no account while the entry behind it is no
tensor.  Behind two tensors of one name, `u` is what is missing, for either of two models. -/
theorem tensorsFor_staged_unknown :
    (default.tensorsFor (some ⟨⟨["x", "y", "x"], ["output"]⟩, 0⟩)
        (some "\x7b\"u\":\";AACAPw==\",\"r\":\"AAAA;\",\"v\":\"AAAA;\"\x7d")).value =
        .error (.notTensor ⟨"r", .raggedShape 3⟩) ∧
      (∀ name, name ∈ ["x", "y", "x"] ↔ name ∈ ["y", "x"]) ∧
      default.tensorsFor (some ⟨⟨["x", "y", "x"], ["output"]⟩, 0⟩)
          (some "\x7b\"x\":\";AACAPw==\"\"x\":\";AAAAAA==\",\"u\":\";AACAPw==\"\x7d") =
        default.tensorsFor (some ⟨⟨["y", "x"], ["a", "b"]⟩, 1⟩)
          (some "\x7b\"x\":\";AACAPw==\"\"x\":\";AAAAAA==\",\"u\":\";AACAPw==\"\x7d") ∧
      (default.tensorsFor (some ⟨⟨["y", "x"], ["a", "b"]⟩, 1⟩)
          (some "\x7b\"x\":\";AACAPw==\"\"x\":\";AAAAAA==\",\"u\":\";AACAPw==\"\x7d")).value =
        .error (.unknownInput "u") := by
  have hbad : Document.ofText
      "\x7b\"u\":\";AACAPw==\",\"r\":\"AAAA;\",\"v\":\"AAAA;\"\x7d" {} =
        .ok ⟨[⟨"u", [], [0, 0, 128, 63]⟩, ⟨"r", [0, 0, 0], []⟩, ⟨"v", [0, 0, 0], []⟩]⟩ := by cbv
  have hdoc : Document.ofText
      "\x7b\"x\":\";AACAPw==\"\"x\":\";AAAAAA==\",\"u\":\";AACAPw==\"\x7d" {} =
        .ok ⟨[⟨"x", [], [0, 0, 128, 63]⟩, ⟨"x", [], [0, 0, 0, 0]⟩,
          ⟨"u", [], [0, 0, 128, 63]⟩]⟩ := by cbv
  have hnames : ∀ name, name ∈ ["x", "y", "x"] ↔ name ∈ ["y", "x"] := by
    intro name
    simp only [List.mem_cons, List.not_mem_nil, or_false]
    tauto
  have hbefore : ∀ x ∈ [(⟨"u", [], [0, 0, 128, 63]⟩ : Entry)], ∃ t, Tensor.ofEntry x = .ok t := by
    intro x hx
    rw [List.mem_singleton.mp hx]
    exact ⟨⟨"u", [], [⟨0x3F800000⟩], rfl⟩, rfl⟩
  have hr : Tensor.ofEntry ⟨"r", [0, 0, 0], []⟩ = .error ⟨"r", .raggedShape 3⟩ := rfl
  refine ⟨?_, hnames, (tensorsFor_staged default _).2.2.2 _ _ hnames, ?_⟩
  · refine ((tensorsFor_staged default _).1 _ _).mpr (.undecoded ?_)
    exact .notTensor rfl hbad List.singleton_append.symm hbefore hr
  · refine ((tensorsFor_staged default _).1 _ _).mpr ?_
    have hts : Decoding default
        (some "\x7b\"x\":\";AACAPw==\"\"x\":\";AAAAAA==\",\"u\":\";AACAPw==\"\x7d")
        (.ok ([⟨"x", [], [⟨0x3F800000⟩], rfl⟩, ⟨"x", [], [⟨0⟩], rfl⟩] ++
          ⟨"u", [], [⟨0x3F800000⟩], rfl⟩ :: [])) :=
      .decoded rfl hdoc (.cons rfl (.cons rfl (.cons rfl .nil)))
    exact .unknownInput hts (by decide) (by decide)

end Settings

end TensorText
