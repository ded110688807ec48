import EidosDB.Lexical.Analyzer
import EidosDB.Lib.Runs

/-! # What the Tokens of a Text Are

    The loop of `tokenize` carries a run that is not finished and writes it
    out at a separator and at the end.  The result is the list of the maximal
    runs of alphanumeric characters, each in lower case
    (`tokenize_eq_runs`).

    The test for alphanumeric characters is made before a character is put
    in lower case.  A token is again a text with itself as its only token
    when the lower case of its characters passes the test and is its own
    lower case; `İ` is a character where it is not. -/

namespace EidosDB

variable {U : Unicode}

/-- A run in lower case. -/
def lowered (U : Unicode) (run : List Char) : List Char := run.flatMap U.toLowercase

/-- The token of a run. -/
def tokenOf (U : Unicode) (run : List Char) : String := String.ofList (lowered U run)

/-- Every character has a lower case, of one character or more. -/
def Unicode.Lowers (U : Unicode) : Prop := ∀ c, U.toLowercase c ≠ []

theorem lowered_isEmpty (h : U.Lowers) (run : List Char) :
    (lowered U run).isEmpty = run.isEmpty := by
  cases run with
  | nil => rfl
  | cons c run =>
    have hne : lowered U (c :: run) ≠ [] := by
      rw [lowered, List.flatMap_cons]
      exact List.append_ne_nil_of_left_ne_nil (h c) _
    rw [List.isEmpty_eq_false_iff.mpr hne]
    rfl

/-! ## The loop -/

/-- The tokens when the text ends. -/
def flush (s : List String × List Char) : List String :=
  if s.2.isEmpty then s.1 else s.1 ++ [String.ofList s.2]

theorem tokenize_eq (U : Unicode) (text : String) :
    tokenize U text = flush (text.toList.foldl (tokenizeStep U) ([], [])) := rfl

/-- The loop with tokens and a run carried in: the run goes on to the first
    separator, and the rest is cut by itself. -/
theorem flush_foldl (h : U.Lowers) (chars : List Char) (tokens : List String)
    (current : List Char) :
    flush (chars.foldl (tokenizeStep U) (tokens, current)) =
      flush (tokens, current ++ lowered U (chars.takeWhile U.isAlphanumeric)) ++
        (runs U.isAlphanumeric (chars.dropWhile U.isAlphanumeric)).map (tokenOf U) := by
  induction chars generalizing tokens current with
  | nil => simp [lowered]
  | cons c chars ih =>
    rw [List.foldl_cons]
    cases hc : U.isAlphanumeric c with
    | true =>
      have hstep : tokenizeStep U (tokens, current) c = (tokens, current ++ U.toLowercase c) := by
        rw [tokenizeStep, if_pos hc]
      rw [hstep, ih, List.takeWhile_cons_of_pos hc, List.dropWhile_cons_of_pos hc, lowered,
        lowered, List.flatMap_cons, List.append_assoc]
    | false =>
      have hneg : ¬ U.isAlphanumeric c = true := by simp [hc]
      have hstep : tokenizeStep U (tokens, current) c = (flush (tokens, current), []) := by
        unfold tokenizeStep flush
        rw [if_neg hneg]
        cases current <;> rfl
      -- what follows the separator begins with a run, or with a separator again
      have hrest : flush (flush (tokens, current), lowered U (chars.takeWhile U.isAlphanumeric)) =
          flush (tokens, current) ++ (if (chars.takeWhile U.isAlphanumeric).isEmpty then []
            else [chars.takeWhile U.isAlphanumeric]).map (tokenOf U) := by
        unfold flush
        dsimp only
        rw [lowered_isEmpty h]
        cases (chars.takeWhile U.isAlphanumeric).isEmpty with
        | true => exact (List.append_nil _).symm
        | false => rfl
      rw [hstep, ih, List.nil_append, hrest, List.append_assoc, ← List.map_append, ← runs_eq,
        List.takeWhile_cons_of_neg hneg, List.dropWhile_cons_of_neg hneg, runs_cons_neg hc]
      simp [lowered]

/-- `tokenize` is the list of the maximal runs, in lower case. -/
theorem tokenize_eq_runs (h : U.Lowers) (text : String) :
    tokenize U text = (runs U.isAlphanumeric text.toList).map (tokenOf U) := by
  have hflush : flush (([] : List String), lowered U (text.toList.takeWhile U.isAlphanumeric)) =
      (if (text.toList.takeWhile U.isAlphanumeric).isEmpty then []
        else [text.toList.takeWhile U.isAlphanumeric]).map (tokenOf U) := by
    unfold flush
    dsimp only
    rw [lowered_isEmpty h]
    cases (text.toList.takeWhile U.isAlphanumeric).isEmpty <;> rfl
  rw [tokenize_eq, flush_foldl h, List.nil_append, hflush, ← List.map_append, ← runs_eq]

theorem tokenOf_ne_empty (h : U.Lowers) {run : List Char} (hne : run ≠ []) :
    tokenOf U run ≠ "" := by
  intro hempty
  have hlist : lowered U run = [] := String.ofList_eq_empty_iff.mp hempty
  have hrun := lowered_isEmpty h run
  rw [hlist] at hrun
  exact hne (List.isEmpty_iff.mp hrun.symm)

/-- **The analyzer meets its specification.**  For any tables that give every
    character a lower case, a text has exactly one cut into maximal runs of
    alphanumeric characters and its tokens are these runs in lower case; a
    separator parts the tokens before it from those behind it; no token is
    empty. -/
theorem tokenize_spec (h : ∀ c, U.toLowercase c ≠ []) :
    (∀ text : String, (∃ rs, IsRuns U.isAlphanumeric text.toList rs) ∧
      ∀ rs, IsRuns U.isAlphanumeric text.toList rs →
        tokenize U text = rs.map fun run => String.ofList (run.flatMap U.toLowercase)) ∧
    (∀ (a b : String) (c : Char), U.isAlphanumeric c = false →
      tokenize U (a ++ String.singleton c ++ b) = tokenize U a ++ tokenize U b) ∧
    ∀ text : String, ∀ token ∈ tokenize U text, token ≠ "" := by
  refine ⟨fun text => ⟨⟨_, isRuns_runs _⟩, ?_⟩, ?_, ?_⟩
  · intro rs hrs
    rw [tokenize_eq_runs h, isRuns_iff.mp hrs]
    rfl
  · intro a b c hc
    have hchars : (a ++ String.singleton c ++ b).toList = a.toList ++ c :: b.toList := by
      simp
    rw [tokenize_eq_runs h, tokenize_eq_runs h, tokenize_eq_runs h, hchars, runs_separator _ _ hc,
      List.map_append]
  · intro text token htoken
    rw [tokenize_eq_runs h] at htoken
    obtain ⟨run, hrun, rfl⟩ := List.mem_map.mp htoken
    exact tokenOf_ne_empty h (ne_nil_of_mem_runs hrun)

theorem tokenize_spec_ascii :
    tokenize .ascii ("Error" ++ String.singleton '-' ++ "42") =
      tokenize .ascii "Error" ++ tokenize .ascii "42" :=
  (tokenize_spec (U := .ascii) (fun _ => List.cons_ne_nil _ _)).2.1 "Error" "42" '-' (by decide)

/-! ## Tokens as texts -/

/-- The tokens of a text are clean and stable: no separator is in one, and
    each is its own only token. -/
structure CleanTokens (U : Unicode) (text : String) : Prop where
  alphanumeric : ∀ token ∈ tokenize U text, ∀ c ∈ token.toList, U.isAlphanumeric c = true
  stable : ∀ token ∈ tokenize U text, tokenize U token = [token]

/-- Putting a run in lower case changes nothing exactly when it changes none
    of its characters: no lower case is shorter than the character. -/
theorem lowered_eq_self_iff (h : U.Lowers) (chars : List Char) :
    lowered U chars = chars ↔ ∀ c ∈ chars, U.toLowercase c = [c] := by
  have hlong : ∀ l : List Char, l.length ≤ (lowered U l).length := by
    intro l
    induction l with
    | nil => exact Nat.zero_le _
    | cons c l ih =>
      have hpos := List.length_pos_iff.mpr (h c)
      rw [lowered, List.flatMap_cons, List.length_append, List.length_cons, ← lowered]
      omega
  induction chars with
  | nil => simp [lowered]
  | cons c chars ih =>
    rw [lowered, List.flatMap_cons, ← lowered]
    constructor
    · intro heq
      have hlen := congrArg List.length heq
      rw [List.length_append, List.length_cons] at hlen
      have hpos := List.length_pos_iff.mpr (h c)
      have hone : (U.toLowercase c).length = 1 := by
        have := hlong chars
        omega
      obtain ⟨d, hd⟩ := List.length_eq_one_iff.mp hone
      rw [hd, List.singleton_append, List.cons.injEq] at heq
      exact List.forall_mem_cons.mpr ⟨by rw [hd, heq.1], ih.mp heq.2⟩
    · intro hall
      obtain ⟨hc, hrest⟩ := List.forall_mem_cons.mp hall
      rw [hc, ih.mpr hrest]
      rfl

/-- A text of alphanumeric characters has one token, itself in lower case. -/
theorem tokenize_of_all (h : U.Lowers) {text : String} (hne : text.toList ≠ [])
    (hall : ∀ c ∈ text.toList, U.isAlphanumeric c = true) :
    tokenize U text = [tokenOf U text.toList] := by
  rw [tokenize_eq_runs h, runs_of_all hne hall]
  rfl

/-- The characters of the tokens are the lower cases of the alphanumeric
    characters of the text. -/
theorem mem_token_iff (h : U.Lowers) {text : String} {d : Char} :
    (∃ token ∈ tokenize U text, d ∈ token.toList) ↔
      ∃ c ∈ text.toList, U.isAlphanumeric c = true ∧ d ∈ U.toLowercase c := by
  rw [tokenize_eq_runs h]
  constructor
  · rintro ⟨token, htoken, hd⟩
    obtain ⟨run, hrun, rfl⟩ := List.mem_map.mp htoken
    rw [tokenOf, String.toList_ofList, lowered, List.mem_flatMap] at hd
    obtain ⟨c, hc, hd⟩ := hd
    obtain ⟨hmem, halnum⟩ := exists_mem_runs_iff.mp ⟨run, hrun, hc⟩
    exact ⟨c, hmem, halnum, hd⟩
  · rintro ⟨c, hmem, halnum, hd⟩
    obtain ⟨run, hrun, hc⟩ := exists_mem_runs_iff.mpr ⟨hmem, halnum⟩
    refine ⟨tokenOf U run, List.mem_map_of_mem hrun, ?_⟩
    rw [tokenOf, String.toList_ofList, lowered]
    exact List.mem_flatMap.mpr ⟨c, hc, hd⟩

/-- **When tokens are clean and stable.**  Exactly when the lower case of
    every alphanumeric character of the text is made of alphanumeric
    characters that are their own lower case. -/
theorem cleanTokens_iff (h : ∀ c, U.toLowercase c ≠ []) (text : String) :
    CleanTokens U text ↔ ∀ c ∈ text.toList, U.isAlphanumeric c = true →
      ∀ d ∈ U.toLowercase c, U.isAlphanumeric d = true ∧ U.toLowercase d = [d] := by
  have hne : ∀ token ∈ tokenize U text, token.toList ≠ [] := by
    intro token htoken hempty
    exact (tokenize_spec h).2.2 text token htoken (String.toList_eq_nil_iff.mp hempty)
  constructor
  · rintro ⟨halnum, hstable⟩ c hc hcalnum d hd
    obtain ⟨token, htoken, hmem⟩ := (mem_token_iff h).mpr ⟨c, hc, hcalnum, hd⟩
    refine ⟨halnum token htoken d hmem, ?_⟩
    have hself := hstable token htoken
    rw [tokenize_of_all h (hne token htoken) (halnum token htoken), List.singleton_inj] at hself
    have hlowered : lowered U token.toList = token.toList := by
      have hlist := congrArg String.toList hself
      rwa [tokenOf, String.toList_ofList] at hlist
    exact (lowered_eq_self_iff h token.toList).mp hlowered d hmem
  · intro hsettled
    have hchars : ∀ token ∈ tokenize U text, ∀ d ∈ token.toList,
        U.isAlphanumeric d = true ∧ U.toLowercase d = [d] := by
      intro token htoken d hd
      obtain ⟨c, hc, hcalnum, hd⟩ := (mem_token_iff h).mp ⟨token, htoken, hd⟩
      exact hsettled c hc hcalnum d hd
    refine ⟨fun token htoken d hd => (hchars token htoken d hd).1, fun token htoken => ?_⟩
    rw [tokenize_of_all h (hne token htoken) fun d hd => (hchars token htoken d hd).1, tokenOf,
      (lowered_eq_self_iff h _).mpr fun d hd => (hchars token htoken d hd).2, String.ofList_toList]

/-- The tables on ASCII text and on `İ`, a letter whose lower case is an `i`
    and a combining dot; the dot is not alphanumeric. -/
def Unicode.dottedI : Unicode where
  isAlphanumeric c := c.isAlphanum || c == 'İ'
  toLowercase c := if c = 'İ' then ['i', '\u0307'] else [c.toLower]

theorem Unicode.dottedI_lowers (c : Char) : Unicode.dottedI.toLowercase c ≠ [] := by
  unfold Unicode.dottedI
  dsimp only
  split <;> simp

theorem cleanTokens_iff_plain : CleanTokens .dottedI "Ab 1" := by
  have hchars : "Ab 1".toList = ['A', 'b', ' ', '1'] := by decide +kernel
  apply (cleanTokens_iff Unicode.dottedI_lowers "Ab 1").mpr
  rw [hchars]
  simp [Unicode.dottedI]

/-- The one token of `İ` has a separator in it, and is cut there when it is
    searched for. -/
theorem not_cleanTokens_dottedI : tokenize .dottedI "İ" = ["i\u0307"] ∧
    tokenize .dottedI "i\u0307" = ["i"] ∧ ¬ CleanTokens .dottedI "İ" := by
  have htokens : tokenize .dottedI "İ" = ["i\u0307"] := by decide +kernel
  refine ⟨htokens, by decide +kernel, fun hclean => ?_⟩
  have hdot := hclean.alphanumeric "i\u0307" (by rw [htokens]; exact List.mem_singleton_self _)
    '\u0307' (by decide)
  exact absurd hdot (by decide)

end EidosDB
