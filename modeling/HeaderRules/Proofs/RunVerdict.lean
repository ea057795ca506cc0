import HeaderRules.Command.Run
import HeaderRules.Proofs.RunState

/-!
# The verdict on a run

A run is decided by the first header that fails one of its tests, and by the first test that this
header fails. `RefusedAt` says at which index which test fails, judged only by the headers before
that index, and the main theorem reads the outcome of a run off it: the least index decides the
error, and without one the run succeeds. What follows a failure is never looked at.
-/

namespace HeaderRules.HeaderRun

open Outcome

/-! ## The tests of one header -/

/-- The first test that a text fails as the header after `prev`. -/
inductive Refused (c : ChainParams) (prev : StoredBlock) (history : History) (text : String) :
    RunError → Prop where
  | header {cause : HeaderHexError} (decodes : Header.ofHex text = .error cause) :
      Refused c prev history text (.header cause)
  | link {h : Header} (decodes : Header.ofHex text = .ok h) (link : h.prevBlockHash ≠ prev.hash) :
      Refused c prev history text (.doesNotConnect (nextHeight prev.height))
  | work {h : Header} {cause : VerificationError} (decodes : Header.ofHex text = .ok h)
      (link : h.prevBlockHash = prev.hash) (work : c.verifyProofOfWork h = .error cause) :
      Refused c prev history text (.verification cause)
  | difficulty {h : Header} {digest : PowHash} {cause : VerificationError}
      (decodes : Header.ofHex text = .ok h) (link : h.prevBlockHash = prev.hash)
      (work : c.verifyProofOfWork h = .ok digest)
      (difficulty : c.checkDifficulty prev h history = .error cause) :
      Refused c prev history text (.verification cause)

/-- A text passes every test as the header after `prev`. -/
structure Passes (c : ChainParams) (prev : StoredBlock) (history : History) (text : String)
    (h : Header) : Prop where
  decodes : Header.ofHex text = .ok h
  link : h.prevBlockHash = prev.hash
  work : ∃ digest, c.verifyProofOfWork h = .ok digest
  difficulty : c.checkDifficulty prev h history = .ok ()

section

variable {c : ChainParams} {start : UInt32} {run : HeaderRun} {text : String}

theorem passes_or_refused (c : ChainParams) (prev : StoredBlock) (history : History)
    (text : String) :
    (∃ h, Passes c prev history text h) ∨ ∃ e, Refused c prev history text e := by
  obtain ⟨h, hdecodes⟩ | ⟨cause, hdecodes⟩ := ok_or_error (Header.ofHex text)
  swap
  · exact .inr ⟨_, .header hdecodes⟩
  by_cases hlink : h.prevBlockHash = prev.hash
  swap
  · exact .inr ⟨_, .link hdecodes hlink⟩
  obtain ⟨digest, hwork⟩ | ⟨cause, hwork⟩ := ok_or_error (c.verifyProofOfWork h)
  swap
  · exact .inr ⟨_, .work hdecodes hlink hwork⟩
  obtain ⟨⟨⟩, hdifficulty⟩ | ⟨cause, hdifficulty⟩ := ok_or_error (c.checkDifficulty prev h history)
  · exact .inl ⟨h, hdecodes, hlink, ⟨digest, hwork⟩, hdifficulty⟩
  · exact .inr ⟨_, .difficulty hdecodes hlink hwork hdifficulty⟩

/-- The tests of a text that is a header. -/
theorem step_of_decodes {h : Header} (hdecodes : Header.ofHex text = .ok h) :
    step c run text =
      if h.prevBlockHash ≠ run.tip.hash then .error (.doesNotConnect (nextHeight run.tip.height))
      else (do
        let _ ← (c.verifyProofOfWork h).mapError .verification
        (c.checkDifficulty run.tip h run.store.history).mapError .verification
        place c run.store h (nextHeight run.tip.height)) := by
  rw [step, hdecodes]
  rfl

theorem step_of_passes {h : Header} (hpass : Passes c run.tip run.store.history text h) :
    step c run text = .ok (placed c run.store h (nextHeight run.tip.height)) := by
  obtain ⟨hdecodes, hlink, ⟨digest, hwork⟩, hdifficulty⟩ := hpass
  rw [step_of_decodes hdecodes, if_neg (not_not_intro hlink), hwork, hdifficulty]
  exact place_eq_ok c run.store h (nextHeight run.tip.height)

theorem step_of_refused {e : RunError} (hrefused : Refused c run.tip run.store.history text e) :
    step c run text = .error e := by
  cases hrefused with
  | header decodes =>
    rw [step, decodes]
    rfl
  | link decodes link => rw [step_of_decodes decodes, if_pos link]
  | work decodes link work =>
    rw [step_of_decodes decodes, if_neg (not_not_intro link), work]
    rfl
  | difficulty decodes link work difficulty =>
    rw [step_of_decodes decodes, if_neg (not_not_intro link), work, difficulty]
    rfl

/-- A step fails with the error of the first test that fails. -/
theorem step_eq_error_iff {e : RunError} :
    step c run text = .error e ↔ Refused c run.tip run.store.history text e := by
  refine ⟨fun h => ?_, step_of_refused⟩
  obtain ⟨header, hpass⟩ | ⟨e', hrefused⟩ := passes_or_refused c run.tip run.store.history text
  · exact nomatch (step_of_passes hpass).symm.trans h
  · rwa [← Except.error.inj ((step_of_refused hrefused).symm.trans h)]

/-- A step that succeeds stores the header that the text denotes. -/
theorem reached_of_step {headers : List Header} {run' : HeaderRun}
    (h : Reached c start headers run) (hstep : step c run text = .ok run') :
    ∃ header, Header.ofHex text = .ok header ∧ Reached c start (headers ++ [header]) run' := by
  obtain ⟨header, hpass⟩ | ⟨e, hrefused⟩ := passes_or_refused c run.tip run.store.history text
  · rw [step_of_passes hpass, Except.ok.injEq] at hstep
    subst hstep
    exact ⟨header, hpass.decodes, h.insert header⟩
  · exact nomatch (step_of_refused hrefused).symm.trans hstep

/-! ## The tests of a whole run -/

/-- The first test that the text with an index fails, judged by the texts before it. The first text
only has to be a header; a later one is tested after the last block of those before it, with the
history of all of them. -/
inductive RefusedAt (c : ChainParams) (start : UInt32) (texts : List String) :
    Nat → RunError → Prop where
  | first {text : String} {cause : HeaderHexError} (here : texts[0]? = some text)
      (decodes : Header.ofHex text = .error cause) : RefusedAt c start texts 0 (.header cause)
  | later {i : Nat} {headers : List Header} {prev : StoredBlock} {text : String} {e : RunError}
      (before : (texts.take (i + 1)).mapM Header.ofHex = .ok headers)
      (tip : (blocks c start headers).getLast? = some prev) (here : texts[i + 1]? = some text)
      (refused : Refused c prev (latest (blocks c start headers)) text e) :
      RefusedAt c start texts (i + 1) e

theorem RefusedAt.lt_length {texts : List String} {i : Nat} {e : RunError}
    (h : RefusedAt c start texts i e) : i < texts.length := by
  cases h with
  | first here => exact (List.getElem?_eq_some_iff.1 here).1
  | later _ _ here => exact (List.getElem?_eq_some_iff.1 here).1

/-- Whether a text is refused depends on no text after it. -/
theorem refusedAt_append_iff {texts : List String} {i : Nat} {e : RunError} (more : List String)
    (hi : i < texts.length) :
    RefusedAt c start (texts ++ more) i e ↔ RefusedAt c start texts i e := by
  have hhere : (texts ++ more)[i]? = texts[i]? := List.getElem?_append_left hi
  have hbefore : (texts ++ more).take i = texts.take i := List.take_append_of_le_length hi.le
  constructor
  · intro h
    cases h with
    | first here decodes => exact .first (hhere ▸ here) decodes
    | later before tip here refused => exact .later (hbefore ▸ before) tip (hhere ▸ here) refused
  · intro h
    cases h with
    | first here decodes => exact .first (hhere.trans here) decodes
    | later before tip here refused =>
      exact .later (hbefore.symm ▸ before) tip (hhere.trans here) refused

/-- The next text of a run is refused exactly if it fails a test in the state of the run. -/
theorem refusedAt_length_iff {texts : List String} {headers : List Header} {e : RunError}
    (hdecodes : texts.mapM Header.ofHex = .ok headers) (hreached : Reached c start headers run) :
    RefusedAt c start (texts ++ [text]) texts.length e ↔
      Refused c run.tip run.store.history text e := by
  have hbefore : (texts ++ [text]).take texts.length = texts := List.take_left
  have hhere : (texts ++ [text])[texts.length]? = some text := List.getElem?_concat_length
  -- A state is only reached by some header, so the next text is not the first one.
  obtain ⟨k, hk⟩ : ∃ k, texts.length = k + 1 := by
    cases texts with
    | nil =>
      cases hdecodes
      exact nomatch hreached.tip
    | cons first rest => exact ⟨rest.length, rfl⟩
  rw [hk] at hbefore hhere ⊢
  rw [hreached.history]
  constructor
  · intro h
    cases h with
    | later before tip here refused =>
      rw [hbefore, hdecodes, Except.ok.injEq] at before
      subst before
      rw [hreached.tip, Option.some.injEq] at tip
      rw [hhere, Option.some.injEq] at here
      rwa [tip, here]
  · intro h
    exact .later (hbefore.symm ▸ hdecodes) hreached.tip hhere h

/-! ## The outcome of a whole run -/

/-- What the outcome of a run says about its texts: they are headers and none is refused, or the
first that is refused is so with this error. -/
inductive Decided (c : ChainParams) (start : UInt32) (texts : List String) :
    Except RunError HeaderRun → Prop where
  | accepted {headers : List Header} {run : HeaderRun}
      (decodes : texts.mapM Header.ofHex = .ok headers) (reached : Reached c start headers run)
      (accepted : ∀ i e, ¬RefusedAt c start texts i e) : Decided c start texts (.ok run)
  | refused {i : Nat} {e : RunError} (refused : RefusedAt c start texts i e)
      (least : ∀ j < i, ∀ e', ¬RefusedAt c start texts j e') : Decided c start texts (.error e)

theorem decided_start (c : ChainParams) (start : UInt32) (text : String) :
    Decided c start [text] (HeaderRun.start c start text) := by
  obtain ⟨header, hdecodes⟩ | ⟨cause, hdecodes⟩ := ok_or_error (Header.ofHex text)
  · have hstart : HeaderRun.start c start text = .ok (placed c Store.empty header start) := by
      rw [HeaderRun.start, hdecodes]
      exact place_eq_ok c Store.empty header start
    rw [hstart]
    have hheaders : [text].mapM Header.ofHex = .ok [header] := by
      rw [List.mapM_cons, hdecodes]
      rfl
    refine .accepted hheaders (reached_first c start header) fun i e h => ?_
    cases h with
    | first here fails =>
      cases here
      exact nomatch hdecodes.symm.trans fails
    | later _ _ here => exact nomatch here
  · have hstart : HeaderRun.start c start text = .error (.header cause) := by
      rw [HeaderRun.start, hdecodes]
      rfl
    rw [hstart]
    exact .refused (.first rfl hdecodes) fun j hj => absurd hj (Nat.not_lt_zero j)

/-- One more text leaves a failure as it is, and decides an accepted run by its own tests. -/
theorem Decided.concat {texts : List String} {outcome : Except RunError HeaderRun}
    (h : Decided c start texts outcome) (text : String) :
    Decided c start (texts ++ [text]) (outcome >>= fun run => step c run text) := by
  cases h with
  | refused refused least =>
    -- The failure stays the first one, since no test looks at a later text.
    have hlt := refused.lt_length
    refine .refused ((refusedAt_append_iff [text] hlt).2 refused) fun j hj e' h => ?_
    exact least j hj e' ((refusedAt_append_iff [text] (hj.trans hlt)).1 h)
  | @accepted headers run decodes reached accepted =>
    have hearlier (i : Nat) (e : RunError) (hi : i < texts.length) :
        ¬RefusedAt c start (texts ++ [text]) i e := by
      rw [refusedAt_append_iff [text] hi]
      exact accepted i e
    -- No earlier text is refused, so the new one decides.
    rw [ok_bind]
    cases hstep : step c run text with
    | error e =>
      have hrefused := (refusedAt_length_iff decodes reached).2 (step_eq_error_iff.1 hstep)
      exact .refused hrefused fun j hj e' => hearlier j e' hj
    | ok run' =>
      obtain ⟨header, hheader, hreached⟩ := reached_of_step reached hstep
      have hheaders : (texts ++ [text]).mapM Header.ofHex = .ok (headers ++ [header]) := by
        rw [List.mapM_append, decodes, List.mapM_cons, hheader]
        rfl
      refine .accepted hheaders hreached fun i e h => ?_
      have hi := h.lt_length
      rw [List.length_append, List.length_singleton] at hi
      obtain hlt | rfl : i < texts.length ∨ i = texts.length := by omega
      · exact hearlier i e hlt h
      · rw [refusedAt_length_iff decodes reached, ← step_eq_error_iff, hstep] at h
        exact nomatch h

theorem verify_concat (c : ChainParams) (start : UInt32) (first text : String)
    (rest : List String) :
    verify c start (first :: (rest ++ [text])) =
      verify c start (first :: rest) >>= fun run => step c run text := by
  simp only [verify, List.foldlM_append, List.foldlM_cons, List.foldlM_nil, bind_assoc, bind_pure]

/-- Every run that has a header is decided by the first of its texts that is refused. -/
theorem decided_verify (c : ChainParams) (start : UInt32) (first : String) (rest : List String) :
    Decided c start (first :: rest) (verify c start (first :: rest)) := by
  -- A run grows at its end, where its state is known, so the induction takes texts off the end.
  induction rest using List.reverseRecOn with
  | nil =>
    have hfirst : verify c start [first] = HeaderRun.start c start first := bind_pure _
    rw [hfirst]
    exact decided_start c start first
  | append_singleton rest text ih =>
    rw [verify_concat]
    exact ih.concat text

theorem Refused.unique {prev : StoredBlock} {history : History} {e e' : RunError}
    (h : Refused c prev history text e) (h' : Refused c prev history text e') : e = e' := by
  cases h <;> cases h' <;> simp_all

theorem RefusedAt.unique {texts : List String} {i : Nat} {e e' : RunError}
    (h : RefusedAt c start texts i e) (h' : RefusedAt c start texts i e') : e = e' := by
  cases h with
  | first here decodes =>
    cases h' with
    | first here' decodes' =>
      obtain rfl := Option.some.inj (here.symm.trans here')
      rw [Except.error.inj (decodes.symm.trans decodes')]
  | later before tip here refused =>
    cases h' with
    | later before' tip' here' refused' =>
      obtain rfl := Except.ok.inj (before.symm.trans before')
      obtain rfl := Option.some.inj (tip.symm.trans tip')
      obtain rfl := Option.some.inj (here.symm.trans here')
      exact refused.unique refused'

theorem verify_eq_error_iff {first : String} {rest : List String} {e : RunError} :
    verify c start (first :: rest) = .error e ↔
      ∃ i, RefusedAt c start (first :: rest) i e ∧
        ∀ j < i, ∀ e', ¬RefusedAt c start (first :: rest) j e' := by
  have hdecided := decided_verify c start first rest
  constructor
  · intro h
    rw [h] at hdecided
    cases hdecided with
    | refused refused least => exact ⟨_, refused, least⟩
  · rintro ⟨i, hrefused, hleast⟩
    cases hverify : verify c start (first :: rest) with
    | ok run =>
      rw [hverify] at hdecided
      cases hdecided with
      | accepted _ _ accepted => exact absurd hrefused (accepted i e)
    | error e' =>
      rw [hverify] at hdecided
      cases hdecided with
      | @refused i' _ refused least =>
        -- Both indices are the least one, where only one test is the first to fail.
        obtain hlt | rfl | hlt := Nat.lt_trichotomy i i'
        · exact absurd hrefused (least i hlt e)
        · rw [hrefused.unique refused]
        · exact absurd refused (hleast i' hlt e')

theorem verify_eq_ok_iff {first : String} {rest : List String} :
    (∃ run, verify c start (first :: rest) = .ok run) ↔
      ∀ i e, ¬RefusedAt c start (first :: rest) i e := by
  have hdecided := decided_verify c start first rest
  constructor
  · rintro ⟨run, h⟩
    rw [h] at hdecided
    cases hdecided with
    | accepted _ _ accepted => exact accepted
  · intro hnone
    obtain hok | ⟨e, h⟩ := ok_or_error (verify c start (first :: rest))
    · exact hok
    · obtain ⟨i, hrefused, -⟩ := verify_eq_error_iff.1 h
      exact absurd hrefused (hnone i e)

theorem verify_append (c : ChainParams) (start : UInt32) (first : String)
    (rest more : List String) :
    verify c start (first :: (rest ++ more)) =
      verify c start (first :: rest) >>= fun run => more.foldlM (step c) run := by
  simp only [verify, List.foldlM_append, bind_assoc]

/-- The command reports the verdict on the texts of its file. -/
theorem output_verify {chain : Chain} {file : Option String} {texts : List String}
    (hc : c.params = chain.params) (path : String) (start : UInt32)
    (htexts : Command.texts file = .ok texts) :
    (Command.verify chain path start).output file =
      ((verify c start texts).mapError .run).map fun _ => "" := by
  have hchain : ChainParams.ofChain chain = .ok c := c.ofParams_eq_ok_iff.2 hc
  rw [Command.output, hchain, htexts, mapError_ok, ok_bind, ok_bind]
  cases verify c start texts <;> rfl

/-- An empty list of texts has no verdict. For any other list the least index at which a text is
refused decides the error, and the run succeeds if there is none; so more texts do not change the
error of a run, and the front part of an accepted run is accepted. The command reports just this
for the texts of its file. -/
theorem verify_decided_by_least_refusal (c : ChainParams) (start : UInt32) :
    (verify c start [] = .error .empty ∧ RunError.empty.message = "no headers to verify") ∧
    (∀ first rest,
      (∀ cause, Header.ofHex first = .error cause →
        verify c start (first :: rest) = .error (.header cause)) ∧
      (∀ e, verify c start (first :: rest) = .error e ↔
        ∃ i, RefusedAt c start (first :: rest) i e ∧
          ∀ j < i, ∀ e', ¬RefusedAt c start (first :: rest) j e') ∧
      ((∃ run, verify c start (first :: rest) = .ok run) ↔
        ∀ i e, ¬RefusedAt c start (first :: rest) i e) ∧
      (∀ more e, verify c start (first :: rest) = .error e →
        verify c start (first :: (rest ++ more)) = .error e) ∧
      ∀ more run, verify c start (first :: (rest ++ more)) = .ok run →
        ∃ run', verify c start (first :: rest) = .ok run') ∧
    ∀ chain path file texts, c.params = chain.params → Command.texts file = .ok texts →
      (Command.verify chain path start).output file =
        ((verify c start texts).mapError .run).map fun _ => "" := by
  refine ⟨⟨rfl, rfl⟩,
    fun first rest => ⟨fun cause h => ?_, fun e => verify_eq_error_iff, verify_eq_ok_iff,
      fun more e h => ?_, fun more run h => ?_⟩,
    fun chain path file texts hc h => ?_⟩
  · rw [verify, HeaderRun.start, h]
    rfl
  · rw [verify_append, h]
    rfl
  · rw [verify_append, bind_eq_ok_iff] at h
    obtain ⟨run', hrun', -⟩ := h
    exact ⟨run', hrun'⟩
  · exact output_verify hc path start h

/-- Of two texts in a file the first has an odd length. The command refuses it and does not look at
the second one. -/
theorem command_refuses_first_text_of_file :
    Command.texts (some "[\"00f\", \"\"]") = .ok ["00f", ""] ∧
      (Command.verify .dogecoin "headers.json" 145000).output (some "[\"00f\", \"\"]") =
        .error (.run (.header ⟨.oddLength⟩)) := by
  obtain ⟨-, hrun, hcommand⟩ := verify_decided_by_least_refusal .dogecoin 145000
  have htexts : Command.texts (some "[\"00f\", \"\"]") = .ok ["00f", ""] := by decide +kernel
  have hfirst : verify .dogecoin 145000 ["00f", ""] = .error (.header ⟨.oddLength⟩) :=
    (hrun "00f" [""]).1 ⟨.oddLength⟩ (by decide +kernel)
  refine ⟨htexts, ?_⟩
  rw [hcommand .dogecoin "headers.json" _ _ rfl htexts, hfirst]
  rfl

end

end HeaderRules.HeaderRun
