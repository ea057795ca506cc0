import HeaderRules.Proofs.RunVerdict

/-!
# Accepted runs

A run that verifies is a list of headers that grows by one header at a time: each names the header
before it, has its work, and declares the difficulty that follows from the headers before it.
`Accepted` says so about the headers alone, and a list of texts verifies exactly if it decodes to
such a list (`verify_eq_ok_iff_accepted`). What every step keeps is therefore an induction over
`Accepted`.
-/

namespace HeaderRules.HeaderRun

open Outcome

/-- A list of headers of which each but the first passes its tests on top of those before it. -/
inductive Accepted (c : ChainParams) (start : UInt32) : List Header → Prop where
  | first (h : Header) : Accepted c start [h]
  | next {headers : List Header} {prev : StoredBlock} {h : Header}
      (earlier : Accepted c start headers)
      (tip : (blocks c start headers).getLast? = some prev)
      (link : h.prevBlockHash = prev.hash)
      (work : ∃ digest, c.verifyProofOfWork h = .ok digest)
      (difficulty : c.checkDifficulty prev h (latest (blocks c start headers)) = .ok ()) :
      Accepted c start (headers ++ [h])

section

variable {c : ChainParams} {start : UInt32}

/-- The last header of an accepted list passed its tests, if it is not the first one. -/
theorem Accepted.of_concat {headers : List Header} {h : Header} (hne : headers ≠ [])
    (haccepted : Accepted c start (headers ++ [h])) :
    Accepted c start headers ∧ ∃ prev, (blocks c start headers).getLast? = some prev ∧
      h.prevBlockHash = prev.hash ∧ (∃ digest, c.verifyProofOfWork h = .ok digest) ∧
      c.checkDifficulty prev h (latest (blocks c start headers)) = .ok () := by
  generalize hall : headers ++ [h] = all at haccepted
  cases haccepted with
  | first first =>
    have hlength := congrArg List.length hall
    rw [List.length_append, List.length_singleton, List.length_singleton] at hlength
    exact absurd (List.eq_nil_of_length_eq_zero (by omega)) hne
  | next earlier tip link work difficulty =>
    obtain ⟨rfl, hlast⟩ := List.append_inj' hall rfl
    obtain rfl := List.singleton_inj.1 hlast
    exact ⟨earlier, _, tip, link, work, difficulty⟩

/-- The texts of a list that grows at its end decode to headers that do. -/
theorem mapM_concat_eq_ok_iff {texts : List String} {text : String} {headers : List Header} :
    (texts ++ [text]).mapM Header.ofHex = .ok headers ↔
      ∃ earlier h, texts.mapM Header.ofHex = .ok earlier ∧ Header.ofHex text = .ok h ∧
        headers = earlier ++ [h] := by
  rw [List.mapM_append, bind_eq_ok_iff]
  constructor
  · rintro ⟨earlier, hearlier, h⟩
    obtain ⟨last, hlast, h⟩ := bind_eq_ok_iff.1 h
    rw [List.mapM_cons, bind_eq_ok_iff] at hlast
    obtain ⟨h', hdecodes, hlast⟩ := hlast
    cases hlast
    cases h
    exact ⟨earlier, h', hearlier, hdecodes, rfl⟩
  · rintro ⟨earlier, h, hearlier, hdecodes, rfl⟩
    refine ⟨earlier, hearlier, ?_⟩
    rw [List.mapM_cons, hdecodes]
    rfl

/-- Every text that decodes gives one header. -/
theorem length_of_mapM {texts : List String} {headers : List Header}
    (h : texts.mapM Header.ofHex = .ok headers) : headers.length = texts.length := by
  induction texts using List.reverseRecOn generalizing headers with
  | nil =>
    cases h
    rfl
  | append_singleton texts text ih =>
    obtain ⟨earlier, header, hearlier, -, rfl⟩ := mapM_concat_eq_ok_iff.1 h
    rw [List.length_append, List.length_append, ih hearlier, List.length_singleton,
      List.length_singleton]

/-- A run that succeeds has accepted its headers. -/
theorem accepted_of_verify {first : String} {rest : List String} {run : HeaderRun}
    (h : verify c start (first :: rest) = .ok run) :
    ∃ headers, (first :: rest).mapM Header.ofHex = .ok headers ∧ Reached c start headers run ∧
      Accepted c start headers := by
  -- A run grows at its end, as in its verdict.
  induction rest using List.reverseRecOn generalizing run with
  | nil =>
    obtain ⟨run', hstart, hrun⟩ := bind_eq_ok_iff.1 h
    cases hrun
    obtain ⟨header, hdecodes, hplace⟩ := bind_eq_ok_iff.1 hstart
    rw [place_eq_ok, Except.ok.injEq] at hplace
    subst hplace
    rw [mapError_eq_ok_iff] at hdecodes
    refine ⟨[header], ?_, reached_first c start header, .first header⟩
    rw [List.mapM_cons, hdecodes]
    rfl
  | append_singleton rest text ih =>
    rw [verify_concat, bind_eq_ok_iff] at h
    obtain ⟨run', hrun', hstep⟩ := h
    obtain ⟨headers, hdecodes, hreached, haccepted⟩ := ih hrun'
    obtain ⟨header, hpass⟩ | ⟨e, hrefused⟩ := passes_or_refused c run'.tip run'.store.history text
    · rw [step_of_passes hpass, Except.ok.injEq] at hstep
      subst hstep
      exact ⟨headers ++ [header],
        mapM_concat_eq_ok_iff.2 ⟨headers, header, hdecodes, hpass.decodes, rfl⟩,
        hreached.insert header, .next haccepted hreached.tip hpass.link hpass.work
          (hreached.history ▸ hpass.difficulty)⟩
    · exact nomatch (step_of_refused hrefused).symm.trans hstep

/-- A run over texts of an accepted list succeeds. -/
theorem verify_of_accepted {first : String} {rest : List String} {headers : List Header}
    (hdecodes : (first :: rest).mapM Header.ofHex = .ok headers)
    (haccepted : Accepted c start headers) :
    ∃ run, verify c start (first :: rest) = .ok run ∧ Reached c start headers run := by
  induction rest using List.reverseRecOn generalizing headers with
  | nil =>
    rw [List.mapM_cons, bind_eq_ok_iff] at hdecodes
    obtain ⟨header, hdecodes, hheaders⟩ := hdecodes
    cases hheaders
    refine ⟨_, ?_, reached_first c start header⟩
    rw [verify, HeaderRun.start, hdecodes, mapError_ok, ok_bind, place_eq_ok]
    rfl
  | append_singleton rest text ih =>
    rw [← List.cons_append] at hdecodes
    obtain ⟨earlier, header, hearlier, hheader, rfl⟩ := mapM_concat_eq_ok_iff.1 hdecodes
    have hne : earlier ≠ [] := by
      rw [ne_eq, ← List.length_eq_zero_iff, length_of_mapM hearlier]
      exact Nat.succ_ne_zero rest.length
    obtain ⟨hbefore, prev, htip, hlink, hwork, hdifficulty⟩ := haccepted.of_concat hne
    obtain ⟨run, hrun, hreached⟩ := ih hearlier hbefore
    obtain rfl := Option.some.inj (hreached.tip.symm.trans htip)
    rw [← hreached.history] at hdifficulty
    refine ⟨_, ?_, hreached.insert header⟩
    rw [verify_concat, hrun, ok_bind]
    exact step_of_passes ⟨hheader, hlink, hwork, hdifficulty⟩

/-- A list of texts verifies exactly if it decodes to an accepted list of headers. -/
theorem verify_eq_ok_iff_accepted {first : String} {rest : List String} :
    (∃ run, verify c start (first :: rest) = .ok run) ↔
      ∃ headers, (first :: rest).mapM Header.ofHex = .ok headers ∧ Accepted c start headers := by
  constructor
  · rintro ⟨run, h⟩
    obtain ⟨headers, hdecodes, -, haccepted⟩ := accepted_of_verify h
    exact ⟨headers, hdecodes, haccepted⟩
  · rintro ⟨headers, hdecodes, haccepted⟩
    obtain ⟨run, hrun, -⟩ := verify_of_accepted hdecodes haccepted
    exact ⟨run, hrun⟩

end

end HeaderRules.HeaderRun
