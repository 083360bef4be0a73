/-
A scan over bytes is the scan of the characters, and it never crashes.

Part by part the scanner over bytes follows `Scan`, and so does its loop over the tensors, which
hands on the same entries.  Whatever the text is, it comes to the verdict of the scan, then, and a
crash is none.  How far the head gets is told without looking at characters: `Advances` keeps count
of the bytes that are read, and sets six of them aside for each entry that is handed on.
-/
import TensorText.Proofs.Gate
import TensorText.Proofs.Sinks

namespace TensorText.Tape

variable {α β : Type}

/-! ### The parts -/

theorem follows_skipBlanks : Follows skipBlanks fun s => .ok ((), Scan.skipBlanks s) :=
  (follows_pass (coarse_of_lt fun _ => lt_of_isBlank) ()).congr fun s => by
    rw [through_eq_span]
    rfl

theorem follows_run : Follows run Scan.run := by
  have hcapture := follows_capture (coarse_of_lt fun _ => lt_of_isCodeChar) ()
  refine (hcapture.bind (h := fun run s =>
    if (Utf8.encode run).length % 4 ≠ 0 then .error ⟨.raggedRun run, s⟩
    else
      ((Base64.decode run.toList).map fun bytes => (bytes, s)).mapError fun fault =>
        ⟨.badRun run fault.reason, s⟩) fun run => ?_).congr fun s => ?_
  · intro u s
    dsimp only
    split
    · exact agrees_fail _ u s
    · cases Base64.decode run.toList with
      | ok bytes => exact agrees_pure bytes u s
      | error fault => exact agrees_fail _ u s
  · have hsize : (Utf8.encode (String.ofList (s.takeWhile Base64.isCodeChar))).length =
        (s.takeWhile Base64.isCodeChar).length := by
      rw [encode_eq, String.toList_ofList]
      refine length_bytes_of_lt fun c hc => lt_of_isCodeChar ?_
      exact List.all_eq_true.mp List.all_takeWhile c hc
    rw [through_eq_span, ok_bind]
    dsimp only
    rw [hsize, String.toList_ofList, Scan.run]
    cases hdecode : Base64.decode (s.takeWhile Base64.isCodeChar) with
    | ok bytes =>
        have hlength : ¬(s.takeWhile Base64.isCodeChar).length % 4 ≠ 0 := by
          intro h
          rw [Base64.decode_eq_misaligned_iff.mpr h] at hdecode
          cases hdecode
        rw [if_neg hlength]
        rfl
    | error fault =>
        by_cases hlength : (s.takeWhile Base64.isCodeChar).length % 4 ≠ 0
        · rw [Base64.decode_eq_misaligned_iff.mpr hlength] at hdecode
          cases hdecode
          rw [if_pos hlength]
          rfl
        · rw [if_neg hlength]
          have hfault : fault ≠ .misaligned := by
            rintro rfl
            exact hlength (Base64.decode_eq_misaligned_iff.mp hdecode)
          cases fault with
          | misaligned => exact absurd rfl hfault
          | symbol c i => rfl
          | lastSymbol c i => rfl

theorem Follows.skipBlanks {f : Unit → Scanner β}
    {h : List Char → Except Stop (β × List Char)} (hf : ∀ a, Follows (f a) h) :
    Follows (Tape.skipBlanks >>= f) fun s => h (Scan.skipBlanks s) :=
  follows_skipBlanks.bind hf

theorem follows_name : Follows name Scan.name := by
  have h := Follows.expect (c := '"') (by decide) fun _ =>
    (follows_capture coarse_nameGate false).bind fun name =>
      Follows.expect (c := '"') (by decide) fun _ => follows_pure name
  refine h.congr fun s => ?_
  simp only [through_nameGate]
  rfl

theorem follows_payloads : Follows payloads Scan.payloads := by
  have h := Follows.expect (c := '"') (by decide) fun _ => follows_run.bind fun dimensions =>
    Follows.expect (c := ';') (by decide) fun _ => follows_run.bind fun values =>
      Follows.expect (c := '"') (by decide) fun _ => follows_pure (dimensions, values)
  exact h.congr fun s => rfl

theorem follows_tensor : Follows tensor Scan.tensor := by
  have h := follows_name.bind fun name => Follows.skipBlanks fun _ =>
    Follows.expect (c := ':') (by decide) fun _ => Follows.skipBlanks fun _ =>
      follows_payloads.bind fun x => follows_pure (Entry.mk name x.1 x.2)
  exact h.congr fun s => rfl

theorem skipSeparator_eq (s : List Char) : Scan.skipSeparator s =
    if (Scan.skipBlanks s).head? = some ',' then Scan.skipBlanks (Scan.skipBlanks s).tail
    else Scan.skipBlanks s := by
  rw [Scan.skipSeparator]
  split
  · rename_i s' hs
    rw [hs]
    rfl
  · rename_i hs
    rw [if_neg]
    intro hhead
    obtain ⟨s', hs'⟩ := List.head?_eq_some_iff.mp hhead
    exact hs s' hs'

theorem follows_skipSeparator :
    Follows skipSeparator fun s => .ok ((), Scan.skipSeparator s) := by
  have hcomma : (',').toNat < 128 := by decide
  have hskip := Follows.expect hcomma fun _ => follows_skipBlanks
  simp only [skipSeparator_eq]
  refine Follows.skipBlanks (h := fun s =>
    .ok ((), if s.head? = some ',' then Scan.skipBlanks s.tail else s)) fun _ u s => ?_
  refine agrees_peek ?_
  dsimp only
  by_cases hs : s.head? = some ','
  · rw [if_pos ((bind_lead_eq_some_iff hcomma).mpr hs), if_pos hs]
    obtain ⟨s', rfl⟩ := List.head?_eq_some_iff.mp hs
    exact hskip u (',' :: s')
  · rw [if_neg (hs ∘ (bind_lead_eq_some_iff hcomma).mp), if_neg hs]
    exact agrees_pure () u s

/-! ### The loop over the tensors -/

theorem agrees_push (e : Entry) (u s : List Char) : Agrees (push e) u s [e] (.ok ((), s)) :=
  ⟨rfl, rfl, nofun, [], rfl, by rw [List.append_nil]; rfl⟩

theorem agrees_turn_error {u s : List Char} {stop : Stop} (h : Scan.tensor s = .error stop) :
    Agrees turn u s [] (.error stop) := by
  have htensor := follows_tensor u s
  rw [h] at htensor
  have hhandOn : Agrees handOn u s [] (.error stop) := htensor.bind_error
  exact hhandOn.bind_error

/-- A turn hands its tensor on, and goes on behind the separator. -/
theorem agrees_turn_ok {u s r : List Char} {e : Entry} (h : Scan.tensor s = .ok (e, r)) :
    Agrees turn u s [e] (.ok ((), Scan.skipSeparator r)) := by
  have htensor := follows_tensor u s
  rw [h] at htensor
  have hhandOn : Agrees handOn u s [e] (.ok ((), r)) :=
    htensor.bind_ok fun v _ => agrees_push e (u ++ v) r
  exact hhandOn.bind_ok fun v _ => follows_skipSeparator (u ++ v) r

/-- The loop looks for its end as the scan does. -/
theorem isEnd_iff {u s : List Char} :
    (byteAt? (bytes (u ++ s)) (bytes u).length = none ∨
      byteAt? (bytes (u ++ s)) (bytes u).length = some '\x7d') ↔
      s = [] ∨ s.head? = some '\x7d' := by
  rw [byteAt?_bytes, bind_lead_eq_none_iff, bind_lead_eq_some_iff (by decide)]

theorem agrees_tensors_end {u s : List Char} (h : s = [] ∨ s.head? = some '\x7d') :
    Agrees tensors u s [] (.ok ((), s)) := by
  refine agrees_still ?_ (List.forall_mem_nil _)
  rw [scan_tensors, if_pos (isEnd_iff.mpr h)]
  rfl

theorem agrees_tensors_turn {u s : List Char} (h : ¬(s = [] ∨ s.head? = some '\x7d'))
    {es : List Entry} {x : Except Stop (Unit × List Char)}
    (hturn : Agrees (turn >>= fun _ => tensors) u s es x) : Agrees tensors u s es x := by
  refine hturn.of_scan_eq ?_
  rw [scan_tensors, if_neg fun hend => h (isEnd_iff.mp hend)]

/-- **The loop hands on the tensors that are read one after another.** -/
theorem agrees_tensors (es₀ : List Entry) (s : List Char) :
    ∃ es, (Scan.tensors es₀ s).1 = es₀ ++ es ∧
      ∀ u, Agrees tensors u s es ((Scan.tensors es₀ s).2.map fun r => ((), r)) := by
  fun_induction Scan.tensors es₀ s with
  | case1 es₀ s h => exact ⟨[], (List.append_nil _).symm, fun u => agrees_tensors_end h⟩
  | case2 es₀ s h stop htensor =>
      exact ⟨[], (List.append_nil _).symm, fun u =>
        agrees_tensors_turn h (agrees_turn_error htensor).bind_error⟩
  | case3 es₀ s h e r htensor ih =>
      obtain ⟨es, hes, hagrees⟩ := ih
      refine ⟨e :: es, ?_, fun u => agrees_tensors_turn h ?_⟩
      · rw [hes]
        exact List.append_assoc es₀ [e] es
      · exact (agrees_turn_ok htensor).bind_ok fun v _ => hagrees _

/-! ### The whole text -/

/-- The end of a text, with what is left behind it. -/
def closingOf (strict : Bool) (s : List Char) : Except Stop (Unit × List Char) := do
  let s ← Scan.expect '\x7d' s
  if strict then
    match Scan.skipBlanks s with
    | [] => .ok ((), [])
    | c :: s => .error ⟨.trailing c, c :: s⟩
  else .ok ((), s)

theorem closing_eq_map (strict : Bool) (s : List Char) :
    Scan.closing strict s = (closingOf strict s).map Prod.fst := by
  rw [Scan.closing, closingOf]
  cases Scan.expect '\x7d' s with
  | error stop => rfl
  | ok r =>
      rw [ok_bind, ok_bind]
      cases strict with
      | false => rfl
      | true =>
          rw [if_pos rfl, if_pos rfl, Scan.onlyBlanks]
          cases Scan.skipBlanks r with
          | nil => rfl
          | cons c s => rfl

theorem follows_closing (strict : Bool) : Follows (closing strict) (closingOf strict) := by
  refine Follows.expect (by decide) fun _ => ?_
  cases strict with
  | false => exact follows_pure ()
  | true =>
      refine Follows.skipBlanks (h := fun s => match s with
        | [] => .ok ((), [])
        | c :: s => .error ⟨.trailing c, c :: s⟩) fun _ u s => agrees_peek ?_
      cases s with
      | nil => exact agrees_pure () u []
      | cons c s =>
          obtain ⟨b, hb, -⟩ := exists_lead c
          have hsome : ((c :: s).head?.bind lead).isSome = true := by
            rw [List.head?_cons, Option.bind_some, hb]
            rfl
          rw [if_pos hsome]
          exact (agrees_currentChar u (c :: s)).bind_still (agrees_fail _ u (c :: s))

theorem follows_opening : Follows opening fun s =>
    (Scan.expect '\x7b' (Scan.skipBlanks s)).map fun r => ((), Scan.skipBlanks r) := by
  have h := Follows.skipBlanks fun _ =>
    Follows.expect (c := '\x7b') (by decide) fun _ => follows_skipBlanks
  refine h.congr fun s => ?_
  cases Scan.expect '\x7b' (Scan.skipBlanks s) with
  | error stop => rfl
  | ok r => rfl

/-- The document is scanned by the head as it is character by character. -/
theorem agrees_document (strict : Bool) (u s : List Char) :
    ∃ x, (Scan.document strict ([] : List Entry) s).verdict = x.map Prod.fst ∧
      Agrees (document strict) u s (Scan.document strict ([] : List Entry) s).sink x := by
  have hopening := follows_opening u s
  dsimp only at hopening
  rw [Scan.document]
  cases h : Scan.expect '\x7b' (Scan.skipBlanks s) with
  | error stop =>
      rw [h] at hopening
      exact ⟨.error stop, rfl, hopening.bind_error⟩
  | ok r =>
      rw [h] at hopening
      obtain ⟨es, hes, htensors⟩ := agrees_tensors [] (Scan.skipBlanks r)
      dsimp only
      generalize Scan.tensors ([] : List Entry) (Scan.skipBlanks r) = reading at hes htensors
      obtain ⟨es', result⟩ := reading
      cases hes
      cases result with
      | error stop =>
          exact ⟨.error stop, rfl, hopening.bind_ok fun v _ => (htensors (u ++ v)).bind_error⟩
      | ok r' =>
          refine ⟨closingOf strict r', closing_eq_map strict r', hopening.bind_ok fun v _ => ?_⟩
          have hrest := (htensors (u ++ v)).bind_ok (f := fun _ => closing strict) fun w _ =>
            follows_closing strict _ r'
          rwa [List.append_nil] at hrest

theorem scan_reading {tape : List UInt8} (h : tape ≠ []) (strict : Bool) (head : Nat) :
    (reading strict).scan tape head = (document strict).scan tape head := by
  show Scanner.scan (if tape.length = 0 then pure () else document strict) _ _ = _
  rw [if_neg fun hlength => h (List.length_eq_zero_iff.mp hlength)]
  rfl

/-- A buffer is read by the head as it is character by character. -/
theorem agrees_reading (options : Options) (b : List Char) : ∃ x,
    (scanBuffer b ([] : List Entry) options).verdict = x.map Prod.fst ∧
      Agrees (reading options.strict) [] b (scanBuffer b ([] : List Entry) options).sink x := by
  by_cases hb : b = []
  · subst hb
    exact ⟨.ok ((), []), rfl, agrees_length (agrees_pure () [] [])⟩
  · obtain ⟨x, hverdict, hdocument⟩ := agrees_document options.strict [] b
    have hbytes : bytes b ≠ [] := List.ne_nil_of_length_pos (length_bytes_pos hb)
    rw [scanBuffer, if_neg hb]
    exact ⟨x, hverdict, hdocument.of_scan_eq (scan_reading hbytes options.strict _)⟩

/-! ### How far the head goes -/

theorem advances_closing (strict : Bool) : (closing strict).Advances 1 := by
  refine (advances_expect _).bind (n := 0) fun _ => ?_
  cases strict with
  | false => exact advances_pure ()
  | true =>
      refine advances_skipBlanks.bind (n := 0) fun _ => advances_peek.bind (n := 0) fun b => ?_
      split
      · exact advances_currentChar.bind (n := 0) fun _ => advances_fail _
      · exact advances_pure ()

theorem advances_opening : opening.Advances 1 :=
  advances_skipBlanks.bind fun _ => (advances_expect _).bind fun _ => advances_skipBlanks

theorem advances_tensors : tensors.Advances 0 := by
  intro tape head
  rw [tensors]
  dsimp only
  fun_induction tensorsFrom tape head with
  | case1 head h => exact ⟨0, rfl, rfl, Nat.le_refl 0, fun _ _ => Nat.le_refl 0⟩
  | case2 head h halt hresult => exact advances_turn tape head
  | case3 head h hresult ih => exact (advances_turn tape head).andThen fun _ _ => ih

theorem advances_document (strict : Bool) : (document strict).Advances 2 :=
  advances_opening.bind fun _ => advances_tensors.bind fun _ => advances_closing strict

theorem advances_reading (strict : Bool) : (reading strict).Advances 0 := by
  refine advances_length.bind (n := 0) fun n => ?_
  split
  · exact advances_pure ()
  · exact (advances_document strict).mono (Nat.zero_le 2)

/-- Where an entry was handed on, there is room for the opening brace too. -/
theorem room_document {strict : Bool} {b : List Char}
    (hpushed : ((document strict).scan (bytes b) 0).pushed ≠ []) :
    6 * ((document strict).scan (bytes b) 0).pushed.length + 1 ≤
      ((document strict).scan (bytes b) 0).head := by
  have hquiet : (opening.scan (bytes b) 0).pushed = [] := (follows_opening [] b).pushed_eq
  have hrest : (tensors >>= fun _ => closing strict).Advances 1 :=
    advances_tensors.bind fun _ => advances_closing strict
  obtain ⟨k, hhead, -, -, hk⟩ := advances_opening (bytes b) 0
  have hscan : (document strict).scan (bytes b) 0 = (opening.scan (bytes b) 0).andThen fun _ =>
      (tensors >>= fun _ => closing strict).scan (bytes b) := rfl
  rw [hscan] at hpushed ⊢
  cases hresult : (opening.scan (bytes b) 0).result with
  | error halt =>
      rw [Trace.andThen_of_error hresult] at hpushed
      exact absurd hquiet hpushed
  | ok a =>
      obtain ⟨k', hhead', -, hroom, -⟩ := hrest (bytes b) (opening.scan (bytes b) 0).head
      have hone := hk a hresult
      rw [hquiet, List.length_nil] at hone
      rw [Trace.andThen_of_ok hresult]
      dsimp only
      rw [hquiet, List.nil_append]
      omega

/-! ### Texts -/

/-- The bytes of a text before its first NUL. -/
def tapeOf (text : String) : List UInt8 := Utf8.encode (String.ofList (buffer text))

/-- What happens when a text is scanned. -/
def traceOf (text : String) (options : Options) : Trace Unit :=
  (reading options.strict).scan (tapeOf text) 0

theorem tapeOf_eq (text : String) : tapeOf text = bytes (buffer text) := by
  rw [tapeOf, encode_eq, String.toList_ofList]

/-- The head hands on what the scan hands on, and comes to the same verdict. -/
theorem traceOf_eq (text : String) (options : Options) :
    (traceOf text options).pushed = handed text options ∧
      (traceOf text options).result = (judged text options).mapError .fault := by
  have hlist := scanText_eq_foldl text ([] : List Entry) options
  rw [foldl_push_list, List.nil_append] at hlist
  obtain ⟨x, hverdict, hagrees⟩ := agrees_reading options (buffer text)
  have hpushed := hagrees.pushed_eq
  have hresult := hagrees.result_eq
  rw [traceOf, tapeOf_eq]
  refine ⟨hpushed.trans (congrArg Reading.sink hlist), hresult.trans ?_⟩
  have hjudged : judged text options =
      (x.map Prod.fst).mapError (Stop.diagnostic (buffer text)) := by
    rw [← hverdict]
    exact (congrArg Reading.verdict hlist).symm
  rw [hjudged]
  cases x with
  | error stop => rfl
  | ok r => rfl

/-- All cuts are sound, and the head stays in the text. -/
theorem sound_traceOf (text : String) (options : Options) :
    (∀ c ∈ (traceOf text options).cuts, c.IsSound (tapeOf text)) ∧
      (traceOf text options).head ≤ (tapeOf text).length := by
  obtain ⟨x, -, -, -, hsound, v, hv, hhead⟩ := agrees_reading options (buffer text)
  rw [traceOf, tapeOf_eq]
  refine ⟨hsound, Nat.le_trans (Nat.le_of_eq hhead) ?_⟩
  rw [hv]
  exact length_bytes_le v _

/-- A text that is not empty has room for what it hands on and for its braces. -/
theorem room_traceOf {text : String} {options : Options} (h : tapeOf text ≠ []) :
    6 * (traceOf text options).pushed.length + 1 ≤ (tapeOf text).length ∧
      ((traceOf text options).result = .ok () →
        6 * (traceOf text options).pushed.length + 2 ≤ (tapeOf text).length) := by
  have hle := (sound_traceOf text options).2
  have hdocument : traceOf text options = (document options.strict).scan (tapeOf text) 0 :=
    scan_reading h options.strict 0
  constructor
  · by_cases hnone : (traceOf text options).pushed = []
    · rw [hnone]
      exact List.length_pos_iff.mpr h
    · rw [hdocument, tapeOf_eq] at hnone hle ⊢
      exact Nat.le_trans (room_document hnone) hle
  · intro hok
    obtain ⟨k, hhead, -, -, hroom⟩ := advances_document options.strict (tapeOf text) 0
    rw [← hdocument] at hhead hroom
    have := hroom () hok
    omega

theorem terminated_eq (text : String) :
    (terminated text).result = .ok (String.ofList (buffer text)) ∧
      ∀ c ∈ (terminated text).cuts, c.IsSound (Utf8.encode text) := by
  have hzero : (bytes (buffer text)).findIdx? (· == 0) = none := by
    rw [List.findIdx?_eq_none_iff]
    intro b hb
    exact beq_eq_false_iff_ne.mpr (ne_zero_of_mem_bytes (nul_not_mem_buffer text) b hb)
  have hsplit : buffer text ++ text.toList.dropWhile (fun c => c != '\x00') = text.toList :=
    List.takeWhile_append_dropWhile
  have hhead := List.head?_dropWhile_not (fun c => c != '\x00') text.toList
  rw [terminated, encode_eq]
  generalize text.toList.dropWhile (fun c => c != '\x00') = rest at hsplit hhead
  cases rest with
  | nil =>
      rw [List.append_nil] at hsplit
      have hnone : (bytes text.toList).findIdx? (· == 0) = none := by
        rw [← hsplit]
        exact hzero
      rw [hnone, hsplit, String.ofList_toList]
      exact ⟨rfl, nofun⟩
  | cons c rest =>
      have hc : c = '\x00' := by simpa using hhead
      subst hc
      have hnul : bytes ('\x00' :: rest) = 0 :: bytes rest := rfl
      have hsome : (bytes text.toList).findIdx? (· == 0) = some (bytes (buffer text)).length := by
        rw [← hsplit, bytes_append, List.findIdx?_append, hzero, hnul, List.findIdx?_cons]
        simp
      have hcut := scan_cut [] (buffer text) ('\x00' :: rest) 0
      have hsound := isSound_cut [] (buffer text) ('\x00' :: rest)
      rw [List.nil_append, hsplit] at hcut hsound
      rw [hsome]
      dsimp only
      have hstart : (bytes []).length = 0 := rfl
      rw [hstart] at hcut hsound
      rw [hcut]
      exact ⟨rfl, List.forall_mem_singleton.mpr hsound⟩

/--
**The scan of a text crashes on no input, and its head stays in the text.**  Cutting a text at its
first NUL yields the buffer, and of the buffer's bytes nothing is cut out but whole characters, be
it on the way or for the diagnostic of a failure.  The head goes on byte by byte and comes to the
end of the buffer at most.  What it hands on and how it ends is what scanning the text comes to,
for every sink.  Each turn of the loop that succeeds takes it on by six bytes at least, so that
there is room in the buffer for six bytes an entry and the opening brace, and for the closing
brace if the text is accepted.
-/
theorem traceOf_sound (text : String) (options : Options) :
    ((terminated text).result = .ok (String.ofList (buffer text)) ∧
      ∀ c ∈ (terminated text).cuts, c.IsSound (Utf8.encode text)) ∧
    (∀ c ∈ (traceOf text options).cuts, c.IsSound (tapeOf text)) ∧
    (traceOf text options).result ≠ .error .crash ∧
    (∀ (σ : Type) [Sink σ] (sink : σ), ∃ verdict,
      scanText text sink options =
        ⟨(traceOf text options).pushed.foldl Sink.push sink, verdict⟩ ∧
      (traceOf text options).result = verdict.mapError .fault) ∧
    ((traceOf text options).heads = List.range' 1 (traceOf text options).head ∧
      (traceOf text options).head ≤ (tapeOf text).length) ∧
    (∀ tape head, (turn.scan tape head).result = .ok () →
      head + 6 ≤ (turn.scan tape head).head) ∧
    (tapeOf text ≠ [] →
      6 * (traceOf text options).pushed.length + 1 ≤ (tapeOf text).length ∧
        ((traceOf text options).result = .ok () →
          6 * (traceOf text options).pushed.length + 2 ≤ (tapeOf text).length)) := by
  obtain ⟨hpushed, hresult⟩ := traceOf_eq text options
  obtain ⟨hsound, hle⟩ := sound_traceOf text options
  refine ⟨terminated_eq text, hsound, ?_, ?_, ⟨?_, hle⟩, fun _ _ h => six_le_of_turn h,
    room_traceOf⟩
  · rw [hresult]
    cases judged text options <;> exact nofun
  · intro σ _ sink
    rw [hpushed]
    exact ⟨judged text options, scanText_eq_foldl text sink options, hresult⟩
  · obtain ⟨k, hk, hheads, -⟩ := advances_reading options.strict (tapeOf text) 0
    rw [Nat.zero_add] at hk hheads
    exact hheads.trans (congrArg (List.range' 1) hk.symm)

end TensorText.Tape
