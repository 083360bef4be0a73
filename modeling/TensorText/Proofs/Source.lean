/-
What the bytes of a source come to.

Three things can go wrong with them, and they are looked for in a fixed order: reading
failed at some point, the bytes before the first zero are no text, and the text is
malformed.  `parseSource_of_failure` and `parseSource_of_text` say so for the source as a
whole.  How the bytes were cut up is gone by then: `flatten_ofAttempts` says that requests
which go on add their bytes to what comes later and leave the end as it is, however many
there are, whatever their size, and wherever one was interrupted.
-/
import TensorText.Proofs.Agreement

namespace TensorText

namespace Source

/-- The bytes before the first zero, which have to be text. -/
def beforeZero (bytes : List UInt8) : List UInt8 := bytes.takeWhile fun b => b != 0

/-- A source has contents exactly if reading it comes to an end. -/
theorem contents_eq_ok_iff {source : Source} {bytes : List UInt8} :
    source.contents = .ok bytes ↔ source.failure = none ∧ source.chunks.flatten = bytes := by
  unfold contents
  cases source.failure with
  | none => simp
  | some reason => simp

/-! ### Requests in a row -/

theorem ofAttempts_cons {a : Attempt} (ha : a.goesOn = true) (rest : List Attempt) :
    (ofAttempts (a :: rest)).failure = (ofAttempts rest).failure ∧
      (ofAttempts (a :: rest)).chunks.flatten = a.bytes ++ (ofAttempts rest).chunks.flatten := by
  cases a with
  | piece bytes =>
      have hne : bytes ≠ [] := by simpa [Attempt.goesOn] using ha
      rw [ofAttempts, if_neg hne]
      exact ⟨rfl, rfl⟩
  | interrupted => exact ⟨rfl, rfl⟩
  | failed reason => cases ha

section Requests

variable {attempts : List Attempt} (hgo : ∀ a ∈ attempts, a.goesOn = true) (rest : List Attempt)

include hgo

/-- Requests that go on have no say in how reading ends. -/
theorem failure_ofAttempts :
    (ofAttempts (attempts ++ rest)).failure = (ofAttempts rest).failure := by
  induction attempts with
  | nil => rfl
  | cons a attempts ih =>
      rw [List.cons_append, (ofAttempts_cons (hgo a List.mem_cons_self) _).1]
      exact ih fun a ha => hgo a (List.mem_cons_of_mem _ ha)

/-- Requests that go on add their bytes in order. -/
theorem flatten_ofAttempts :
    (ofAttempts (attempts ++ rest)).chunks.flatten =
      attempts.flatMap Attempt.bytes ++ (ofAttempts rest).chunks.flatten := by
  induction attempts with
  | nil => rfl
  | cons a attempts ih =>
      rw [List.cons_append, (ofAttempts_cons (hgo a List.mem_cons_self) _).2,
        ih fun a ha => hgo a (List.mem_cons_of_mem _ ha), List.flatMap_cons, List.append_assoc]

theorem contents_of_failed (reason : String) :
    (ofAttempts (attempts ++ .failed reason :: rest)).contents = .error reason := by
  rw [contents, failure_ofAttempts hgo]
  rfl

theorem contents_of_end :
    (ofAttempts (attempts ++ .piece [] :: rest)).contents =
      .ok (attempts.flatMap Attempt.bytes) := by
  have hend : (ofAttempts (.piece [] :: rest)).chunks.flatten = [] := rfl
  rw [contents_eq_ok_iff, failure_ofAttempts hgo, flatten_ofAttempts hgo, hend, List.append_nil]
  exact ⟨rfl, rfl⟩

end Requests

end Source

namespace Settings

open Source

/-! ### What is looked for, and in which order -/

variable (s : Settings) {source : Source}

theorem parseSource_of_failure {reason : String} (h : source.contents = .error reason) :
    s.parseSource source = Logged.quiet (.error (.unreadable reason)) := by
  rw [parseSource, h]

theorem parseSource_of_text {bytes : List UInt8} (h : source.contents = .ok bytes)
    {text : String} (htext : Utf8.encode text = beforeZero bytes) :
    s.parseSource source = s.parse text := by
  have hdecode : Utf8.decode (bytes.takeWhile fun b => b != 0) = .ok text :=
    Utf8.decode_eq_ok_iff.mpr htext
  simp only [parseSource, h, hdecode]

/-- A text that is parsed is never at fault for its bytes. -/
theorem kind_of_parse {text : String} {failure : Failure}
    (h : (s.parse text).value = .error failure) : failure.kind = .text := by
  rw [value_parse] at h
  obtain ⟨d, -, rfl⟩ := mapError_eq_error.mp h
  rfl

theorem parseSource_input_iff {bytes : List UInt8} (h : source.contents = .ok bytes) :
    (∃ failure, (s.parseSource source).value = .error failure ∧ failure.kind = .input) ↔
      ¬Utf8.WellFormed (beforeZero bytes) := by
  constructor
  · rintro ⟨failure, hfailure, hkind⟩ ⟨text, htext⟩
    rw [parseSource_of_text s h htext] at hfailure
    rw [kind_of_parse s hfailure] at hkind
    cases hkind
  · intro hbad
    obtain ⟨fault, hfault⟩ := Utf8.exists_decode_eq_error_iff.mpr hbad
    refine ⟨.notText fault, ?_, rfl⟩
    have hdecode : Utf8.decode (bytes.takeWhile fun b => b != 0) = .error fault := hfault
    simp only [parseSource, h, hdecode]
    rfl

theorem parseSource_congr {source' : Source} {bytes bytes' : List UInt8}
    (h : source.contents = .ok bytes) (h' : source'.contents = .ok bytes')
    (hsame : beforeZero bytes' = beforeZero bytes) :
    s.parseSource source' = s.parseSource source := by
  have hcut : (bytes'.takeWhile fun b => b != 0) = bytes.takeWhile fun b => b != 0 := hsame
  simp only [parseSource, h, h', hcut]

/--
**The bytes of a source are told apart exactly.**  Where a request fails, the bytes before
it have no say, be they a whole document.  Where reading comes to an end, only the bytes
before the first zero matter: if they are no text the caller's input is at fault, and
otherwise the text is parsed as if it had been handed over itself.  Neither the bytes after
the zero, nor how the bytes were cut into pieces, nor interruptions change anything.
-/
theorem parseSource_ofAttempts {attempts : List Attempt}
    (hgo : ∀ a ∈ attempts, a.goesOn = true) (rest : List Attempt) :
    (∀ reason : String,
      s.parseSource (.ofAttempts (attempts ++ .failed reason :: rest)) =
        Logged.quiet (.error (.unreadable reason)) ∧
      (Failure.unreadable reason).kind = .system) ∧
    ((∃ failure, (s.parseSource (.ofAttempts (attempts ++ .piece [] :: rest))).value =
        .error failure ∧ failure.kind = .input) ↔
      ¬Utf8.WellFormed (beforeZero (attempts.flatMap Attempt.bytes))) ∧
    (∀ text : String, Utf8.encode text = beforeZero (attempts.flatMap Attempt.bytes) →
      s.parseSource (.ofAttempts (attempts ++ .piece [] :: rest)) = s.parse text) ∧
    ∀ attempts' rest' : List Attempt, (∀ a ∈ attempts', a.goesOn = true) →
      beforeZero (attempts'.flatMap Attempt.bytes) =
        beforeZero (attempts.flatMap Attempt.bytes) →
      s.parseSource (.ofAttempts (attempts' ++ .piece [] :: rest')) =
        s.parseSource (.ofAttempts (attempts ++ .piece [] :: rest)) := by
  have hend := contents_of_end hgo rest
  refine ⟨?_, parseSource_input_iff s hend, ?_, ?_⟩
  · intro reason
    exact ⟨parseSource_of_failure s (contents_of_failed hgo rest reason), rfl⟩
  · intro text htext
    exact parseSource_of_text s hend htext
  · intro attempts' rest' hgo' hsame
    exact parseSource_congr s hend (contents_of_end hgo' rest') hsame

/-- A piece ends in the middle of a character, and what follows the zero is no text; the same
bytes do not help a request that fails.  A zero in the middle of a character spoils it. -/
theorem parseSource_ofAttempts_pieces :
    (∀ a ∈ [Attempt.piece [0x7B, 0x22, 0xC3], .interrupted,
        .piece [0xBC, 0x22, 0x3A, 0x22, 0x3B, 0x22, 0x7D, 0x00, 0xFF]], a.goesOn = true) ∧
      Utf8.encode "\x7b\"ü\":\";\"\x7d" = beforeZero
        ([Attempt.piece [0x7B, 0x22, 0xC3], .interrupted,
          .piece [0xBC, 0x22, 0x3A, 0x22, 0x3B, 0x22, 0x7D, 0x00, 0xFF]].flatMap Attempt.bytes) ∧
      (default.parseSource (.ofAttempts ([Attempt.piece [0x7B, 0x22, 0xC3], .interrupted,
        .piece [0xBC, 0x22, 0x3A, 0x22, 0x3B, 0x22, 0x7D, 0x00, 0xFF]] ++
          Attempt.piece [] :: [.failed "late"]))).value = .ok ⟨[⟨"ü", [], []⟩]⟩ ∧
      default.parseSource (.ofAttempts ([Attempt.piece [0x7B, 0x22, 0xC3], .interrupted,
        .piece [0xBC, 0x22, 0x3A, 0x22, 0x3B, 0x22, 0x7D, 0x00, 0xFF]] ++
          Attempt.failed "pipe closed" :: [])) =
            Logged.quiet (.error (.unreadable "pipe closed")) ∧
      ∃ failure, (default.parseSource (.ofAttempts
        ([Attempt.piece [0x7B, 0xC3], .piece [0x00, 0xBC]] ++ Attempt.piece [] :: []))).value =
          .error failure ∧ failure.kind = .input := by
  have hgo : ∀ a ∈ [Attempt.piece [0x7B, 0x22, 0xC3], .interrupted,
      .piece [0xBC, 0x22, 0x3A, 0x22, 0x3B, 0x22, 0x7D, 0x00, 0xFF]], a.goesOn = true := by
    decide
  have htext : Utf8.encode "\x7b\"ü\":\";\"\x7d" = beforeZero
      ([Attempt.piece [0x7B, 0x22, 0xC3], .interrupted,
        .piece [0xBC, 0x22, 0x3A, 0x22, 0x3B, 0x22, 0x7D, 0x00, 0xFF]].flatMap Attempt.bytes) := by
    decide
  have hparse : (default.parse "\x7b\"ü\":\";\"\x7d").value = .ok ⟨[⟨"ü", [], []⟩]⟩ := by cbv
  have hcut : ¬Utf8.WellFormed (beforeZero
      ([Attempt.piece [0x7B, 0xC3], .piece [0x00, 0xBC]].flatMap Attempt.bytes)) :=
    Utf8.exists_decode_eq_error_iff.mp ⟨.incomplete 1, by decide⟩
  refine ⟨hgo, htext, ?_, ?_, ?_⟩
  · rw [(parseSource_ofAttempts default hgo _).2.2.1 _ htext, hparse]
  · exact ((parseSource_ofAttempts default hgo []).1 "pipe closed").1
  · exact (parseSource_ofAttempts default (by decide) []).2.1.mpr hcut

end Settings

end TensorText
