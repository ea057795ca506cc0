import HeaderRules.Proofs.RunVerdict

/-!
# Files of texts

The command that verifies a run takes its texts from a file. Whatever the texts are, with quotes,
backslashes and control characters among them, the list of them that is printed on one line is read
back (`Command.texts_render`), so every run of headers can be handed to the command
(`HeaderRun.output_verify_render`).

Reading goes through three stages, and each of them is followed in front of any rest: a character as
it is written gives one piece of a string (`pieces?_escape`), a string in quotes one token
(`token?_quote`), and a list of strings its tokens one after the other (`tokens?_listed`).
-/

namespace HeaderRules.Json

/-! ## Strings -/

/-- The piece that a written character is read as: itself, unless it is a control character without
a letter of its own. -/
def written (c : Char) : Piece :=
  if c.toNat < 32 ∧ c.toNat ∉ [8, 9, 10, 12, 13] then .unit c.toNat else .char c

theorem pieces?_shortEscape {c e : Char} (h : shortEscape? c = some e) (rest : List Char) :
    pieces? ('\\' :: c :: rest) = (pieces? rest).map fun (ps, rest) => (.char e :: ps, rest) := by
  rw [pieces?, h]
  · cases pieces? rest <;> rfl
  · rintro _ _ _ _ _ rfl
    exact nomatch h

theorem unit?_digitChar :
    ∀ n < 32, unit? '0' '0' (Nat.digitChar (n / 16)) (Nat.digitChar (n % 16)) = some n := by
  decide +kernel

/-- A written character is read as one piece. -/
theorem pieces?_escape (c : Char) (rest : List Char) :
    pieces? (escape c ++ rest) = (pieces? rest).map fun (ps, rest) => (written c :: ps, rest) := by
  have hshort {c d : Char} (h : shortEscape? d = some c) (hplain : written c = .char c) :
      pieces? (['\\', d] ++ rest) =
        (pieces? rest).map fun (ps, rest) => (written c :: ps, rest) := by
    rw [hplain]
    exact pieces?_shortEscape h rest
  have hof (n : Nat) (h : c.toNat = n) : c = Char.ofNat n := by rw [← h, Char.ofNat_toNat]
  unfold escape
  split_ifs with hquote hbackslash hline hreturn htab hback hfeed hcontrol
  · subst hquote
    exact hshort rfl rfl
  · subst hbackslash
    exact hshort rfl rfl
  · subst hline
    exact hshort rfl rfl
  · subst hreturn
    exact hshort rfl rfl
  · subst htab
    exact hshort rfl rfl
  · obtain rfl := hof 8 hback
    exact hshort rfl rfl
  · obtain rfl := hof 12 hfeed
    exact hshort rfl rfl
  · have hother : c.toNat ∉ [8, 9, 10, 12, 13] := by
      have h9 : c.toNat ≠ 9 := fun h => htab (hof 9 h)
      have h10 : c.toNat ≠ 10 := fun h => hline (hof 10 h)
      have h13 : c.toNat ≠ 13 := fun h => hreturn (hof 13 h)
      simp [hback, h9, h10, hfeed, h13]
    have hunit := unit?_digitChar c.toNat hcontrol
    rw [written, if_pos ⟨hcontrol, hother⟩]
    simp only [List.cons_append, List.nil_append]
    rw [pieces?, hunit]
    cases pieces? rest <;> rfl
  · have hplain : written c = .char c := if_neg fun h => hcontrol h.1
    rw [hplain, List.singleton_append, pieces?, if_neg (by simp [hcontrol, hbackslash])]
    · cases pieces? rest <;> rfl
    · exact hquote
    · exact fun _ _ _ _ _ h _ => hbackslash h
    · exact fun _ _ h _ => hbackslash h

theorem pieces?_flatMap_escape (cs rest : List Char) :
    pieces? (cs.flatMap escape ++ '"' :: rest) = some (cs.map written, rest) := by
  induction cs with
  | nil => rfl
  | cons c cs ih =>
    rw [List.flatMap_cons, List.append_assoc, pieces?_escape, ih]
    rfl

/-- A unit below the surrogates joins with nothing. -/
theorem join?_unit {n : Nat} (hn : n < 0xd800) (ps : List Piece) :
    join? (.unit n :: ps) = (join? ps).map (Char.ofNat n :: ·) := by
  rcases ps with _ | ⟨c | m, ps⟩
  · rw [join?.eq_4 n _ (by simp), if_neg (by omega)]
  · rw [join?.eq_4 n _ (by simp), if_neg (by omega)]
  · rw [join?, if_neg (by omega), if_neg (by omega)]

theorem join?_written (cs : List Char) : join? (cs.map written) = some cs := by
  induction cs with
  | nil => rfl
  | cons c cs ih =>
    rw [List.map_cons, written]
    split_ifs with hcontrol
    · rw [join?_unit (by omega), ih, Char.ofNat_toNat]
      rfl
    · rw [join?, ih]
      rfl

theorem toList_quote_append (s : String) (rest : List Char) :
    (quote s).toList ++ rest = '"' :: (s.toList.flatMap escape ++ '"' :: rest) := by
  simp [quote]

/-- A string in quotes is one token. -/
theorem token?_quote (s : String) (rest : List Char) :
    token? ((quote s).toList ++ rest) = some (.value (.str s), rest) := by
  rw [toList_quote_append, token?, pieces?_flatMap_escape]
  simp [join?_written]

/-! ## Lists of strings -/

/-- Strings in quotes with commas between them. -/
def listed : List String → List Char
  | [] => []
  | [s] => (quote s).toList
  | s :: t :: rest => (quote s).toList ++ ',' :: listed (t :: rest)

/-- The tokens of strings with commas between them. -/
def listedTokens : List String → List Token
  | [] => []
  | [s] => [.value (.str s)]
  | s :: t :: rest => .value (.str s) :: .comma :: listedTokens (t :: rest)

theorem exists_listedTokens_cons (s : String) (texts : List String) :
    ∃ rest, listedTokens (s :: texts) = .value (.str s) :: rest := by
  cases texts <;> exact ⟨_, rfl⟩

theorem length_le_length_listedTokens (texts : List String) :
    texts.length ≤ (listedTokens texts).length := by
  fun_induction listedTokens texts with
  | case1 => rfl
  | case2 s => rfl
  | case3 s t rest ih =>
    simp only [List.length_cons] at ih ⊢
    omega

theorem toList_renderItems (out : String) (texts : List String) :
    (renderItems out (texts.map .str)).toList = out.toList ++ listed texts := by
  fun_induction listed texts generalizing out with
  | case1 => simp [renderItems]
  | case2 s => simp [renderItems, renderTo, scalar]
  | case3 s t rest ih =>
    rw [List.map_cons, List.map_cons, renderItems, ← List.map_cons, ih]
    · simp [renderTo, scalar]
    · nofun

theorem toList_render (texts : List String) :
    (render (.arr (texts.map .str))).toList = '[' :: (listed texts ++ [']']) := by
  rw [render, renderTo, String.toList_append, toList_renderItems]
  rfl

theorem tokens?_cons {t : Token} {c : Char} {cs rest : List Char} (hc : Blank.isPlain c = false)
    (ht : token? (c :: cs) = some (t, rest)) (fuel : Nat) :
    tokens? (fuel + 1) (c :: cs) = (tokens? fuel rest).map (t :: ·) := by
  rw [tokens?, List.dropWhile_cons_of_neg (by simp [hc])]
  simp only [ht, Option.bind_eq_bind, Option.bind_some]
  cases tokens? fuel rest <;> rfl

theorem tokens?_quote (s : String) (rest : List Char) (fuel : Nat) :
    tokens? (fuel + 1) ((quote s).toList ++ rest) =
      (tokens? fuel rest).map (.value (.str s) :: ·) := by
  have htoken := token?_quote s rest
  rw [toList_quote_append] at htoken ⊢
  exact tokens?_cons rfl htoken fuel

/-- Every string takes up its quotes at least. -/
theorem two_mul_length_le_length_listed (texts : List String) :
    2 * texts.length ≤ (listed texts).length := by
  have hquotes (s : String) : 2 ≤ (quote s).toList.length := by simp [quote]
  fun_induction listed texts with
  | case1 => rfl
  | case2 s => exact hquotes s
  | case3 s t rest ih =>
    have hfirst := hquotes s
    simp only [List.length_cons, List.length_append] at ih ⊢
    omega

/-- A list of strings up to its end is read as its tokens. -/
theorem tokens?_listed (texts : List String) (fuel : Nat) (hfuel : 2 * texts.length + 1 < fuel) :
    tokens? fuel (listed texts ++ [']']) = some (listedTokens texts ++ [.closeArray]) := by
  have hclose (fuel : Nat) : tokens? (fuel + 2) [']'] = some [.closeArray] := rfl
  fun_induction listed texts generalizing fuel with
  | case1 =>
    obtain ⟨fuel, rfl⟩ : ∃ rest, fuel = rest + 2 := ⟨fuel - 2, by simp at hfuel; omega⟩
    exact hclose fuel
  | case2 s =>
    obtain ⟨fuel, rfl⟩ : ∃ rest, fuel = rest + 3 := ⟨fuel - 3, by simp at hfuel; omega⟩
    rw [tokens?_quote, hclose]
    rfl
  | case3 s t rest ih =>
    obtain ⟨fuel, rfl⟩ : ∃ rest, fuel = rest + 2 := ⟨fuel - 2, by simp at hfuel; omega⟩
    simp only [List.length_cons] at hfuel ih
    rw [List.append_assoc, List.cons_append, tokens?_quote, tokens?_cons rfl rfl, ih _ (by omega)]
    rfl

/-- A list of strings nests nothing. -/
theorem isShallow_listedTokens (depth : Nat) (texts : List String) (rest : List Token) :
    isShallow depth (listedTokens texts ++ rest) = isShallow depth rest := by
  fun_induction listedTokens texts with
  | case1 => rfl
  | case2 s => rfl
  | case3 s t more ih => exact ih

theorem items?_listedTokens (s : String) (texts : List String) (fuel : Nat)
    (hfuel : texts.length + 1 < fuel) :
    items? fuel (listedTokens (s :: texts) ++ [.closeArray]) =
      some ((s :: texts).map .str, []) := by
  induction texts generalizing s fuel with
  | nil =>
    obtain ⟨fuel, rfl⟩ : ∃ rest, fuel = rest + 2 := ⟨fuel - 2, by simp at hfuel; omega⟩
    rfl
  | cons t texts ih =>
    obtain ⟨fuel, rfl⟩ : ∃ rest, fuel = rest + 2 := ⟨fuel - 2, by omega⟩
    rw [listedTokens, List.cons_append, List.cons_append, items?]
    simp only [value?]
    rw [ih t _ (by simp only [List.length_cons] at hfuel; omega)]
    rfl

theorem value?_openArray (fuel : Nat) (s : String) (ts : List Token) :
    value? (fuel + 1) (.openArray :: .value (.str s) :: ts) =
      (items? fuel (.value (.str s) :: ts)).map fun (items, rest) => (.arr items, rest) := rfl

theorem value?_listedTokens (texts : List String) (fuel : Nat) (hfuel : texts.length + 1 < fuel) :
    value? fuel (.openArray :: (listedTokens texts ++ [.closeArray])) =
      some (.arr (texts.map .str), []) := by
  obtain ⟨fuel, rfl⟩ : ∃ rest, fuel = rest + 1 := ⟨fuel - 1, by omega⟩
  cases texts with
  | nil => rfl
  | cons s texts =>
    have hitems := items?_listedTokens s texts fuel (by simpa using hfuel)
    obtain ⟨rest, hrest⟩ := exists_listedTokens_cons s texts
    rw [hrest, List.cons_append] at hitems ⊢
    rw [value?_openArray, hitems]
    rfl

/-- A printed list of strings is read back. -/
theorem parse?_render (texts : List String) :
    parse? (render (.arr (texts.map .str))) = some (.arr (texts.map .str)) := by
  have htokens : tokens? (('[' :: (listed texts ++ [']'])).length + 1)
      ('[' :: (listed texts ++ [']'])) =
        some (.openArray :: (listedTokens texts ++ [.closeArray])) := by
    have hlength := two_mul_length_le_length_listed texts
    rw [tokens?_cons rfl rfl, tokens?_listed texts _ (by simp; omega)]
    rfl
  have hshallow : isShallow 0 (.openArray :: (listedTokens texts ++ [.closeArray])) = true := by
    rw [isShallow, isShallow_listedTokens]
    rfl
  have hvalue := value?_listedTokens texts
    (2 * (Token.openArray :: (listedTokens texts ++ [.closeArray])).length + 2) (by
      have hlength := length_le_length_listedTokens texts
      simp
      omega)
  rw [parse?, toList_render]
  simp only [htokens, Option.bind_eq_bind, Option.bind_some, hshallow, hvalue]
  rfl

end HeaderRules.Json

namespace HeaderRules

/-- The texts of a file are those of the list that was printed into it. -/
theorem Command.texts_render (texts : List String) :
    Command.texts (some (Json.render (.arr (texts.map .str)))) = .ok texts := by
  have hstrings : (texts.map Json.str).mapM Json.str? = some texts := by
    induction texts with
    | nil => rfl
    | cons s texts ih =>
      rw [List.map_cons, List.mapM_cons, ih]
      rfl
  rw [Command.texts, Json.parse?_render, Option.bind_some, Json.strings?, Json.arr?,
    Option.bind_some, hstrings]

/-- Every run can be handed to the command, which reports the verdict on it. -/
theorem HeaderRun.output_verify_render {c : ChainParams} {chain : Chain}
    (hc : c.params = chain.params) (path : String) (start : UInt32) (texts : List String) :
    (Command.verify chain path start).output (some (Json.render (.arr (texts.map .str)))) =
      ((verify c start texts).mapError .run).map fun _ => "" :=
  output_verify hc path start (Command.texts_render texts)

end HeaderRules
