import AggQuery.Toml.Quoted
import Mathlib.Tactic.FinCases

/-!
# Strings of a settings text read back

Every string is read back from what is written for it, whichever form that is
(`read_write`). A string without quotes, backslashes and controls is its own escaped body, so
the two basic forms need one statement each: an escaped body is read back.

## Implementation notes

On several lines up to two quotes may stand in a row, also in front of the closing three, so
the statement about those bodies carries the number of quotes just passed and splits where
the body ends in quotes.
-/

namespace AggQuery.Toml.Quoted

section Characters

variable {c : Char}

theorem isPlain_of_not_isControl (h : isControl c = false) (hbreak : c ≠ '\n') :
    isPlain c = true := by
  simp [isControl, hbreak] at h
  simp [isPlain, h]

/-- What need not be escaped on several lines is no carriage return. -/
theorem plain_of_not_isControl (h : isControl c = false) :
    c ≠ '\r' ∧ (c = '\n' ∨ isPlain c = true) := by
  have hreturn : c ≠ '\r' := by
    rintro rfl
    cases h
  refine ⟨hreturn, ?_⟩
  by_cases hbreak : c = '\n'
  · exact .inl hbreak
  · exact .inr (isPlain_of_not_isControl h hbreak)

/-- The letters of the two kinds of codes are no escapes of their own. -/
theorem ne_of_escaped? {d : Char} (h : escaped? d = some c) : d ≠ 'u' ∧ d ≠ 'U' := by
  constructor <;>
    · rintro rfl
      cases h

theorem toNat_lt_of_isControl (h : isControl c = true) : c.toNat < 128 := by
  simp only [isControl, Bool.or_eq_true, Bool.and_eq_true, decide_eq_true_eq] at h
  rcases h with ⟨h, -⟩ | rfl
  · omega
  · decide

theorem shortCode?_upperHex (h : isControl c = true) :
    shortCode? (upperHex (c.toNat / 4096)) (upperHex (c.toNat / 256 % 16))
      (upperHex (c.toNat / 16 % 16)) (upperHex (c.toNat % 16)) = some c := by
  have hall : ∀ n < 128, isControl (Char.ofNat n) = true →
      shortCode? (upperHex (n / 4096)) (upperHex (n / 256 % 16)) (upperHex (n / 16 % 16))
        (upperHex (n % 16)) = some (Char.ofNat n) := by decide
  have hc := hall c.toNat (toNat_lt_of_isControl h)
  rw [Char.ofNat_toNat] at hc
  exact hc h

/-- A control is escaped by a letter or by its code. -/
theorem controlEscape_cases (h : isControl c = true) :
    (∃ d, controlEscape c = ['\\', d] ∧ escaped? d = some c) ∨
      ∃ a b d e, controlEscape c = ['\\', 'u', a, b, d, e] ∧ shortCode? a b d e = some c := by
  unfold controlEscape
  split
  · next heq => exact .inl ⟨'b', rfl, by rw [heq]; rfl⟩
  split
  · next heq => exact .inl ⟨'t', rfl, by rw [heq]; rfl⟩
  split
  · next heq => exact .inl ⟨'f', rfl, by rw [heq]; rfl⟩
  split
  · next heq => exact .inl ⟨'r', rfl, by rw [heq]; rfl⟩
  · exact .inr ⟨_, _, _, _, rfl, shortCode?_upperHex h⟩

end Characters

section Steps

variable {c d x : Char} (acc rest : List Char)

attribute [local simp] readBasic readLiteral readBasicLines readLiteralLines

theorem readBasic_plain (h : isPlain c = true) (hquote : c ≠ '"') (hslash : c ≠ '\\') :
    readBasic acc (c :: rest) = readBasic (c :: acc) rest := by
  simp [h]

theorem readBasic_escaped (h : escaped? d = some x) :
    readBasic acc ('\\' :: d :: rest) = readBasic (x :: acc) rest := by
  simp [h, ne_of_escaped? h]

theorem readBasic_code {a b d e : Char} (h : shortCode? a b d e = some x) :
    readBasic acc ('\\' :: 'u' :: a :: b :: d :: e :: rest) = readBasic (x :: acc) rest := by
  simp [h]

theorem readBasic_control (h : isControl c = true) :
    readBasic acc (controlEscape c ++ rest) = readBasic (c :: acc) rest := by
  obtain ⟨d, hd, hescaped⟩ | ⟨_, _, _, _, hd, hcode⟩ := controlEscape_cases h
  · rw [hd]
    exact readBasic_escaped acc rest hescaped
  · rw [hd]
    exact readBasic_code acc rest hcode

theorem readLiteral_plain (h : isPlain c = true) (hquote : c ≠ '\'') :
    readLiteral acc (c :: rest) = readLiteral (c :: acc) rest := by
  simp [h]

theorem readBasicLines_plain (h : c = '\n' ∨ isPlain c = true) (hquote : c ≠ '"')
    (hslash : c ≠ '\\') (hreturn : c ≠ '\r') :
    readBasicLines false acc (c :: rest) = readBasicLines false (c :: acc) rest := by
  rcases h with rfl | h <;> simp [*]

theorem readBasicLines_escaped (h : escaped? d = some x) :
    readBasicLines false acc ('\\' :: d :: rest) = readBasicLines false (x :: acc) rest := by
  have hblank : breaksAfterBlanks (d :: rest) = false := by
    have hd : d ∉ [' ', '\t', '\n', '\r'] := by
      intro hmem
      fin_cases hmem <;> cases h
    simp at hd
    simp [breaksAfterBlanks, hd]
  simp [h, ne_of_escaped? h, hblank]

theorem readBasicLines_code {a b d e : Char} (h : shortCode? a b d e = some x) :
    readBasicLines false acc ('\\' :: 'u' :: a :: b :: d :: e :: rest) =
      readBasicLines false (x :: acc) rest := by
  have hblank : breaksAfterBlanks ('u' :: a :: b :: d :: e :: rest) = false := by
    rfl
  simp [h, hblank]

theorem readBasicLines_control (h : isControl c = true) :
    readBasicLines false acc (controlEscape c ++ rest) = readBasicLines false (c :: acc) rest := by
  obtain ⟨d, hd, hescaped⟩ | ⟨_, _, _, _, hd, hcode⟩ := controlEscape_cases h
  · rw [hd]
    exact readBasicLines_escaped acc rest hescaped
  · rw [hd]
    exact readBasicLines_code acc rest hcode

/-- A quote that no two quotes follow is read as it stands. -/
theorem readBasicLines_quote (h : ∀ more, rest ≠ '"' :: '"' :: more) :
    readBasicLines false acc ('"' :: rest) = readBasicLines false ('"' :: acc) rest := by
  rw [readBasicLines]
  · rfl
  · exact fun more _ heq => h _ heq
  · exact fun more _ heq => h _ heq
  · exact fun more _ heq => h _ heq
  · decide
  · exact fun more heq => absurd heq (by decide)

/-- Up to two quotes may stand in front of the closing three. -/
theorem readBasicLines_end {rest : List Char} (quotes : List Char)
    (hquotes : quotes ∈ [[], ['"'], ['"', '"']]) (acc : List Char)
    (hrest : rest.head? ≠ some '"') :
    readBasicLines false acc (quotes ++ '"' :: '"' :: '"' :: rest) =
      some (acc.reverse ++ quotes, rest) := by
  have hd (d : Char) (more : List Char) (heq : rest = d :: more) : d ≠ '"' := by
    simpa [heq] using hrest
  fin_cases hquotes <;> cases rest <;> simp_all

theorem readLiteralLines_plain (h : c = '\n' ∨ isPlain c = true) (hquote : c ≠ '\'')
    (hreturn : c ≠ '\r') :
    readLiteralLines acc (c :: rest) = readLiteralLines (c :: acc) rest := by
  rcases h with rfl | h <;> simp [*]

/-- A quote that no two quotes follow is read as it stands. -/
theorem readLiteralLines_quote (h : ∀ more, rest ≠ '\'' :: '\'' :: more) :
    readLiteralLines acc ('\'' :: rest) = readLiteralLines ('\'' :: acc) rest := by
  rw [readLiteralLines]
  · rfl
  · exact fun more _ heq => h _ heq
  · exact fun more _ heq => h _ heq
  · exact fun more _ heq => h _ heq
  · exact fun more heq => absurd heq (by decide)

/-- Up to two quotes may stand in front of the closing three. -/
theorem readLiteralLines_end {rest : List Char} (quotes : List Char)
    (hquotes : quotes ∈ [[], ['\''], ['\'', '\'']]) (acc : List Char)
    (hrest : rest.head? ≠ some '\'') :
    readLiteralLines acc (quotes ++ '\'' :: '\'' :: '\'' :: rest) =
      some (acc.reverse ++ quotes, rest) := by
  have hd (d : Char) (more : List Char) (heq : rest = d :: more) : d ≠ '\'' := by
    simpa [heq] using hrest
  fin_cases hquotes <;> cases rest <;> simp_all

end Steps

section EscapedBodies

variable {c : Char} (allowed run : Nat) (text : List Char)

theorem escapeBody_allowed {run allowed : Nat} (h : run < allowed) :
    escapeBody allowed run ('"' :: text) = '"' :: escapeBody allowed (run + 1) text := by
  simp [escapeBody, h]

theorem escapeBody_quote {run allowed : Nat} (h : ¬run < allowed) :
    escapeBody allowed run ('"' :: text) = '\\' :: '"' :: escapeBody allowed 0 text := by
  simp [escapeBody, h]

theorem escapeBody_backslash :
    escapeBody allowed run ('\\' :: text) = '\\' :: '\\' :: escapeBody allowed 0 text := by
  simp [escapeBody]

theorem escapeBody_control (h : isControl c = true) :
    escapeBody allowed run (c :: text) = controlEscape c ++ escapeBody allowed 0 text := by
  have hquote : c ≠ '"' := by
    rintro rfl
    cases h
  have hslash : c ≠ '\\' := by
    rintro rfl
    cases h
  simp [escapeBody, h, hquote, hslash]

theorem escapeBody_plain (h : isControl c = false) (hquote : c ≠ '"') (hslash : c ≠ '\\') :
    escapeBody allowed run (c :: text) = c :: escapeBody allowed 0 text := by
  simp [escapeBody, h, hquote, hslash]

/-- Only a quote that may stand as it is starts an escaped body with a quote. -/
theorem head_escapeBody (tail : List Char) (h : c ≠ '"' ∨ allowed ≤ run) :
    (escapeBody allowed run (c :: text) ++ tail).head? ≠ some '"' := by
  by_cases hquote : c = '"'
  · subst hquote
    rw [escapeBody_quote _ (by simpa using h)]
    simp
  by_cases hslash : c = '\\'
  · subst hslash
    rw [escapeBody_backslash]
    simp
  cases hcontrol : isControl c with
  | true =>
      rw [escapeBody_control _ _ _ hcontrol]
      obtain ⟨d, hd, -⟩ | ⟨_, _, _, _, hd, -⟩ := controlEscape_cases hcontrol <;> simp [hd]
  | false =>
      rw [escapeBody_plain _ _ _ hcontrol hquote hslash]
      simpa using hquote

/-- The body of a string on one line is read back. -/
theorem readBasic_escapeBody {text : List Char} (htext : '\n' ∉ text) (acc rest : List Char) :
    readBasic acc (escapeBody 0 run text ++ '"' :: rest) = some (acc.reverse ++ text, rest) := by
  induction text generalizing acc run with
  | nil => simp [escapeBody, readBasic]
  | cons c text ih =>
      simp only [List.mem_cons, not_or] at htext
      obtain ⟨hc, htext⟩ := htext
      have hnext (run : Nat) : readBasic (c :: acc) (escapeBody 0 run text ++ '"' :: rest) =
          some (acc.reverse ++ c :: text, rest) := by
        rw [ih run htext]
        simp
      by_cases hquote : c = '"'
      · subst hquote
        rw [escapeBody_quote _ (Nat.not_lt_zero run)]
        exact (readBasic_escaped acc _ rfl).trans (hnext 0)
      by_cases hslash : c = '\\'
      · subst hslash
        rw [escapeBody_backslash]
        exact (readBasic_escaped acc _ rfl).trans (hnext 0)
      cases hcontrol : isControl c with
      | true =>
          rw [escapeBody_control _ _ _ hcontrol, List.append_assoc,
            readBasic_control acc _ hcontrol]
          exact hnext 0
      | false =>
          rw [escapeBody_plain _ _ _ hcontrol hquote hslash, List.cons_append,
            readBasic_plain acc _ (isPlain_of_not_isControl hcontrol (Ne.symm hc)) hquote hslash]
          exact hnext 0

/-- A quote of an escaped body is read as it stands, unless the string ends behind it. -/
theorem readBasicLines_allowed {run : Nat} (hrun : run < 2) (htext : text ≠ [])
    (hpair : run = 0 → text ≠ ['"']) (acc tail : List Char) :
    readBasicLines false acc ('"' :: (escapeBody 2 (run + 1) text ++ tail)) =
      readBasicLines false ('"' :: acc) (escapeBody 2 (run + 1) text ++ tail) := by
  refine readBasicLines_quote acc _ fun more heq => ?_
  obtain ⟨c, text, rfl⟩ := List.exists_cons_of_ne_nil htext
  have hhead := head_escapeBody 2 (run + 1) text tail (c := c)
  rw [heq] at hhead
  have hc : c = '"' ∧ run = 0 := by
    by_contra hne
    refine hhead ?_ rfl
    rw [not_and_or] at hne
    exact hne.imp_right fun h => by omega
  obtain ⟨rfl, rfl⟩ := hc
  have hrest : text ≠ [] := fun h => hpair rfl (by rw [h])
  obtain ⟨d, text, rfl⟩ := List.exists_cons_of_ne_nil hrest
  rw [escapeBody_allowed _ (by decide : 0 + 1 < 2), List.cons_append, List.cons.injEq] at heq
  exact head_escapeBody 2 2 text tail (.inr le_rfl) (by rw [heq.2]; rfl)

/-- The body of a string on several lines is read back, behind up to two quotes in a row. -/
theorem readBasicLines_escapeBody {rest : List Char} (hrest : rest.head? ≠ some '"')
    (acc : List Char) {run : Nat} (hrun : run ≤ 2) :
    readBasicLines false acc (escapeBody 2 run text ++ '"' :: '"' :: '"' :: rest) =
      some (acc.reverse ++ text, rest) := by
  induction text generalizing acc run with
  | nil => simpa [escapeBody] using readBasicLines_end [] (by decide) acc hrest
  | cons c text ih =>
      have hnext {run : Nat} (hrun : run ≤ 2) :
          readBasicLines false (c :: acc) (escapeBody 2 run text ++ '"' :: '"' :: '"' :: rest) =
            some (acc.reverse ++ c :: text, rest) := by
        rw [ih (c :: acc) hrun]
        simp
      by_cases hquote : c = '"'
      · subst hquote
        by_cases hallowed : run < 2
        · rw [escapeBody_allowed _ hallowed, List.cons_append]
          by_cases htext : text = []
          · subst htext
            exact readBasicLines_end ['"'] (by decide) acc hrest
          by_cases hpair : run = 0 ∧ text = ['"']
          · obtain ⟨rfl, rfl⟩ := hpair
            exact readBasicLines_end ['"', '"'] (by decide) acc hrest
          rw [readBasicLines_allowed text hallowed htext (fun h heq => hpair ⟨h, heq⟩)]
          exact hnext hallowed
        · rw [escapeBody_quote _ hallowed]
          exact (readBasicLines_escaped acc _ rfl).trans (hnext (Nat.zero_le 2))
      by_cases hslash : c = '\\'
      · subst hslash
        rw [escapeBody_backslash]
        exact (readBasicLines_escaped acc _ rfl).trans (hnext (Nat.zero_le 2))
      cases hcontrol : isControl c with
      | true =>
          rw [escapeBody_control _ _ _ hcontrol, List.append_assoc,
            readBasicLines_control acc _ hcontrol]
          exact hnext (Nat.zero_le 2)
      | false =>
          obtain ⟨hreturn, hplain⟩ := plain_of_not_isControl hcontrol
          rw [escapeBody_plain _ _ _ hcontrol hquote hslash, List.cons_append,
            readBasicLines_plain acc _ hplain hquote hslash hreturn]
          exact hnext (Nat.zero_le 2)

end EscapedBodies

section Runs

variable (quote : Char) (run best : Nat) (text : List Char)

theorem le_longestRun : best ≤ longestRun quote run best text := by
  induction text generalizing run best with
  | nil => exact le_rfl
  | cons c text ih =>
      unfold longestRun
      split
      · exact (le_max_left _ _).trans (ih _ _)
      · exact ih _ _

/-- The row at the start is no longer than the longest. -/
theorem longestRun_quote {allowed : Nat}
    (h : longestRun quote run best (quote :: text) ≤ allowed) :
    run < allowed ∧ longestRun quote (run + 1) (max best (run + 1)) text ≤ allowed := by
  rw [longestRun, if_pos rfl] at h
  exact ⟨(le_max_right _ _).trans ((le_longestRun _ _ _ _).trans h), h⟩

theorem longestRun_of_ne {c : Char} (h : c ≠ quote) :
    longestRun quote run best (c :: text) = longestRun quote 0 best text := by
  rw [longestRun, if_neg h]

theorem longestRun_of_not_mem (h : quote ∉ text) : longestRun quote run best text = best := by
  induction text generalizing run with
  | nil => rfl
  | cons c text ih =>
      simp only [List.mem_cons, not_or] at h
      rw [longestRun_of_ne _ _ _ _ (Ne.symm h.1), ih 0 h.2]

/-- A text that needs no escape is its own escaped body. -/
theorem escapeBody_eq_self {allowed run best : Nat} {text : List Char}
    (hslash : '\\' ∉ text) (hcontrol : text.any isControl = false)
    (hrun : longestRun '"' run best text ≤ allowed) : escapeBody allowed run text = text := by
  induction text generalizing run best with
  | nil => rfl
  | cons c text ih =>
      simp only [List.mem_cons, not_or] at hslash
      simp only [List.any_cons, Bool.or_eq_false_iff] at hcontrol
      by_cases hquote : c = '"'
      · subst hquote
        obtain ⟨hlt, hrun⟩ := longestRun_quote _ _ _ _ hrun
        rw [escapeBody_allowed _ hlt, ih hslash.2 hcontrol.2 hrun]
      · rw [longestRun_of_ne _ _ _ _ hquote] at hrun
        rw [escapeBody_plain _ _ _ hcontrol.1 hquote (Ne.symm hslash.1),
          ih hslash.2 hcontrol.2 hrun]

end Runs

section LiteralBodies

variable {text rest : List Char}

theorem readLiteral_text (hquote : '\'' ∉ text) (hbreak : '\n' ∉ text)
    (hcontrol : text.any isControl = false) (acc : List Char) :
    readLiteral acc (text ++ '\'' :: rest) = some (acc.reverse ++ text, rest) := by
  induction text generalizing acc with
  | nil => simp [readLiteral]
  | cons c text ih =>
      simp only [List.mem_cons, not_or] at hquote hbreak
      simp only [List.any_cons, Bool.or_eq_false_iff] at hcontrol
      rw [List.cons_append, readLiteral_plain acc _
        (isPlain_of_not_isControl hcontrol.1 (Ne.symm hbreak.1)) (Ne.symm hquote.1),
        ih hquote.2 hbreak.2 hcontrol.2]
      simp

/-- The body of a literal string on several lines is read back, behind up to two quotes in a
row. -/
theorem readLiteralLines_text (hcontrol : text.any isControl = false) {run best : Nat}
    (hrun : longestRun '\'' run best text ≤ 2) (hrest : rest.head? ≠ some '\'')
    (acc : List Char) :
    readLiteralLines acc (text ++ '\'' :: '\'' :: '\'' :: rest) =
      some (acc.reverse ++ text, rest) := by
  induction text generalizing acc run best with
  | nil => simpa using readLiteralLines_end [] (by decide) acc hrest
  | cons c text ih =>
      simp only [List.any_cons, Bool.or_eq_false_iff] at hcontrol
      by_cases hquote : c = '\''
      · subst hquote
        obtain ⟨-, hrun⟩ := longestRun_quote _ _ _ _ hrun
        by_cases hlast : text ∈ [[], ['\'']]
        · simpa using readLiteralLines_end ('\'' :: text) (by simpa using hlast) acc hrest
        rw [List.cons_append, readLiteralLines_quote acc _ (fun more heq => ?_),
          ih hcontrol.2 hrun]
        · simp
        -- Two more quotes would make the row too long.
        obtain _ | ⟨c, _ | ⟨d, text⟩⟩ := text
        · simp at hlast
        · simp_all
        · simp only [List.cons_append, List.cons.injEq] at heq
          obtain ⟨rfl, rfl, -⟩ := heq
          obtain ⟨-, hrun⟩ := longestRun_quote _ _ _ _ hrun
          obtain ⟨hlt, -⟩ := longestRun_quote _ _ _ _ hrun
          omega
      · obtain ⟨hreturn, hplain⟩ := plain_of_not_isControl hcontrol.1
        rw [longestRun_of_ne _ _ _ _ hquote] at hrun
        rw [List.cons_append, readLiteralLines_plain acc _ hplain hquote hreturn,
          ih hcontrol.2 hrun]
        simp

end LiteralBodies

section Forms

variable {text rest : List Char}

/-- The line break that is written in front of a body with a line break is the only one that
is not part of the string. -/
theorem dropFirstBreak_text {quote : Char} (hbreak : '\n' ∉ text)
    (hcontrol : text.any isControl = false) (hquote : quote = '"' ∨ quote = '\'') :
    dropFirstBreak (text ++ quote :: rest) = text ++ quote :: rest := by
  have hhead (c : Char) (more : List Char) (heq : text ++ quote :: rest = c :: more) :
      c ≠ '\n' ∧ c ≠ '\r' := by
    cases text with
    | nil =>
        simp only [List.nil_append, List.cons.injEq] at heq
        rw [← heq.1]
        rcases hquote with rfl | rfl <;> decide
    | cons d text =>
        simp only [List.cons_append, List.cons.injEq] at heq
        obtain ⟨rfl, -⟩ := heq
        refine ⟨fun h => hbreak (by simp [h]), ?_⟩
        rintro rfl
        simp [isControl] at hcontrol
  unfold dropFirstBreak
  split
  · next heq => exact absurd rfl (hhead _ _ heq).1
  · next heq => exact absurd rfl (hhead _ _ heq).2
  · rfl

theorem read_basic (h : ∀ more, rest ≠ '"' :: '"' :: more) :
    read ('"' :: rest) = readBasic [] rest := by
  unfold read
  split
  · next heq => exact absurd (List.cons.inj heq).2 (h _)
  · next heq => rw [(List.cons.inj heq).2]
  · next heq => cases heq
  · next heq => cases heq
  · next hne _ _ => exact absurd rfl (hne _)

theorem read_literal (h : ∀ more, rest ≠ '\'' :: '\'' :: more) :
    read ('\'' :: rest) = readLiteral [] rest := by
  unfold read
  split
  · next heq => cases heq
  · next heq => cases heq
  · next heq => exact absurd (List.cons.inj heq).2 (h _)
  · next heq => rw [(List.cons.inj heq).2]
  · next hne => exact absurd rfl (hne _)

/-- A string on one line is read back from its escaped body. -/
theorem read_escapeBody (hbreak : '\n' ∉ text) (hrest : rest.head? ≠ some '"') :
    read ('"' :: escapeBody 0 0 text ++ ['"'] ++ rest) = some (text, rest) := by
  have hquotes (more : List Char) :
      escapeBody 0 0 text ++ '"' :: rest ≠ '"' :: '"' :: more := by
    intro heq
    cases text with
    | nil => simp_all [escapeBody]
    | cons c text => exact head_escapeBody 0 0 text _ (.inr le_rfl) (by rw [heq]; rfl)
  rw [List.append_assoc, List.cons_append, List.singleton_append, read_basic hquotes]
  exact readBasic_escapeBody 0 hbreak [] rest

/-- A literal string on one line is read back. -/
theorem read_literalText (hbreak : '\n' ∉ text) (hcontrol : text.any isControl = false)
    (hquote : '\'' ∉ text) (hrest : rest.head? ≠ some '\'') :
    read ('\'' :: text ++ ['\''] ++ rest) = some (text, rest) := by
  have hquotes (more : List Char) : text ++ '\'' :: rest ≠ '\'' :: '\'' :: more := by
    intro heq
    cases text with
    | nil => simp_all
    | cons c text =>
        simp only [List.cons_append, List.cons.injEq] at heq
        simp [heq.1] at hquote
  rw [List.append_assoc, List.cons_append, List.singleton_append, read_literal hquotes]
  exact readLiteral_text hquote hbreak hcontrol []

/-- Behind the opening quotes of a form on several lines stands its body. -/
theorem dropFirstBreak_tripled {body : List Char} {quote : Char} {hasBreak : Bool}
    (hbody : hasBreak = true ∨ '\n' ∉ body ∧ body.any isControl = false)
    (hquote : quote = '"' ∨ quote = '\'') :
    dropFirstBreak ((if hasBreak then ['\n'] else []) ++ body ++ quote :: rest) =
      body ++ quote :: rest := by
  rcases hbody with rfl | ⟨hbreak, hcontrol⟩
  · rfl
  · cases hasBreak with
    | true => rfl
    | false => exact dropFirstBreak_text hbreak hcontrol hquote

/-- A basic string on several lines is read back from its escaped body. -/
theorem read_tripled_escapeBody {hasBreak : Bool}
    (hbody : hasBreak = true ∨
      '\n' ∉ escapeBody 2 0 text ∧ (escapeBody 2 0 text).any isControl = false)
    (hrest : rest.head? ≠ some '"') :
    read (tripled '"' hasBreak (escapeBody 2 0 text) ++ rest) = some (text, rest) := by
  have hdrop := @dropFirstBreak_tripled ('"' :: '"' :: rest) _ _ _ hbody (.inl rfl)
  have hread := readBasicLines_escapeBody text hrest [] (Nat.zero_le 2)
  rw [← hdrop] at hread
  simpa [tripled, read] using hread

/-- A literal string on several lines is read back. -/
theorem read_tripled_literalText {hasBreak : Bool} (hbreak : hasBreak = true ∨ '\n' ∉ text)
    (hcontrol : text.any isControl = false) (hrun : longestRun '\'' 0 0 text ≤ 2)
    (hrest : rest.head? ≠ some '\'') :
    read (tripled '\'' hasBreak text ++ rest) = some (text, rest) := by
  have hdrop := @dropFirstBreak_tripled ('\'' :: '\'' :: rest) _ _ _
    (hbreak.imp_right fun h => ⟨h, hcontrol⟩) (.inr rfl)
  have hread := readLiteralLines_text hcontrol hrun hrest []
  rw [← hdrop] at hread
  simpa [tripled, read] using hread

/-- Every form starts with a quote. -/
theorem write_eq_cons (text : List Char) :
    ∃ quote body, write text = quote :: body ∧ (quote = '"' ∨ quote = '\'') := by
  unfold write
  simp only []
  split
  · exact ⟨_, _, rfl, .inl rfl⟩
  split
  · exact ⟨_, _, rfl, .inr rfl⟩
  split
  · exact ⟨_, _, rfl, .inl rfl⟩
  split
  · exact ⟨_, _, rfl, .inr rfl⟩
  split
  · exact ⟨_, _, rfl, .inl rfl⟩
  · exact ⟨_, _, rfl, .inl rfl⟩

/-- What is written for a string reads back as that string, whichever form it takes. -/
theorem read_write (text : List Char) {rest : List Char} (hdouble : rest.head? ≠ some '"')
    (hsingle : rest.head? ≠ some '\'') : read (write text ++ rest) = some (text, rest) := by
  have hbreak : text.contains '\n' = true ∨ '\n' ∉ text := by
    simpa using Classical.em ('\n' ∈ text)
  unfold write
  simp only [Bool.and_eq_true, Bool.not_eq_true', decide_eq_true_eq]
  split
  · next h =>
      obtain ⟨⟨⟨hline, hcontrol⟩, hquote⟩, hslash⟩ := h
      have hself : escapeBody 0 0 text = text :=
        @escapeBody_eq_self 0 0 0 _ (by simpa using hslash) hcontrol
          (longestRun_of_not_mem _ _ _ _ (by simpa using hquote)).le
      have hread := @read_escapeBody text _ (by simpa using hline) hdouble
      rwa [hself] at hread
  split
  · next h =>
      obtain ⟨⟨hline, hcontrol⟩, hquote⟩ := h
      exact read_literalText (by simpa using hline) hcontrol (by simpa using hquote) hsingle
  split
  · next h =>
      obtain ⟨⟨hcontrol, hslash⟩, hrun⟩ := h
      have hself : escapeBody 2 0 text = text :=
        escapeBody_eq_self (by simpa using hslash) hcontrol hrun
      have hbody := hbreak.imp_right fun h => And.intro h hcontrol
      have hread := @read_tripled_escapeBody text _ _ (by rwa [hself]) hdouble
      rwa [hself] at hread
  split
  · next h => exact read_tripled_literalText hbreak h.1 h.2 hsingle
  split
  · next h => exact read_tripled_escapeBody (.inl h) hdouble
  · next h => exact read_escapeBody (by simpa using h) hdouble

example : read (write "a\n\"\"\"'''\x01".toList) = some ("a\n\"\"\"'''\x01".toList, []) := by
  decide +kernel

end Forms

end AggQuery.Toml.Quoted
