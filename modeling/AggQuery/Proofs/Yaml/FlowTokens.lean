import AggQuery.Proofs.Yaml.Steps

/-!
# Tokens inside flow collections

There is one step lemma for each kind of token that document text holds: commas and brackets,
quoted strings, plain scalars, and keys with the colon behind them. Each leads from one settled
state to the next and says which tokens are new; a string is read as its fold, or not at all.
-/

namespace AggQuery.Yaml.Tokenizer

variable {bound depth : Nat} {t : Tokenizer} {c : Char} {rest : List Char}

/-- A comma ends an item or an entry, and a key may follow. -/
theorem step_comma (h : Settled bound (depth + 1) t) (hrest : t.cursor.rest = ',' :: rest) :
    ∃ t', Arrives bound (depth + 1) t (.flowEntry :: ·) rest t' ∧ t'.keyAllowed = true := by
  have hs := settled_refreshed h
  have htoken : t.refreshed.token bound ',' rest =
      some ({ t.refreshed with possible := none, keyAllowed := true }.take 1 .flowEntry) := by
    simp [token, hs.inLine, hs.dropKey_eq]
  refine ⟨_, arrives_of_token h hrest (by decide) htoken
    ((hs.withoutKey true).take 1 _) ?_ (Nat.le_refl _) rfl, rfl⟩
  exact congrArg (List.drop 1) hrest

/-- A bracket opens a flow collection, and a key may follow. -/
theorem step_open (h : Settled bound (depth + 1) t) {bracket : Char} {opening : Token}
    (hopening : bracket = '[' ∧ opening = .flowSequenceStart ∨
      bracket = '\x7b' ∧ opening = .flowMappingStart)
    (hrest : t.cursor.rest = bracket :: rest) :
    ∃ t', Arrives bound (depth + 2) t (opening :: ·) rest t' ∧ t'.keyAllowed = true := by
  have hs := settled_refreshed h
  obtain ⟨noted, hnoted, hsettled, hcursor, htokens⟩ := hs.exists_noteKey
  have htoken : t.refreshed.token bound bracket rest =
      some ({ noted with
        suspended := noted.possible :: noted.suspended
        possible := none
        keyAllowed := true }.take 1 opening) := by
    rcases hopening with ⟨rfl, rfl⟩ | ⟨rfl, rfl⟩ <;>
      simp [token, hs.inLine, openFlow, hnoted]
  have hstarts : StartsToken bracket := by
    rcases hopening with ⟨rfl, -⟩ | ⟨rfl, -⟩ <;> decide
  refine ⟨_, arrives_of_token h hrest hstarts htoken (hsettled.opened.take 1 _) ?_
    (Nat.le_refl _) (congrArg (opening :: ·) htokens), rfl⟩
  change (noted.cursor.rest.drop 1) = rest
  rw [hcursor]
  exact congrArg (List.drop 1) hrest

/-- A bracket closes a flow collection. -/
theorem step_close (h : Settled bound (depth + 1) t) {bracket : Char} {closing : Token}
    (hclosing : bracket = ']' ∧ closing = .flowSequenceEnd ∨
      bracket = '\x7d' ∧ closing = .flowMappingEnd)
    (hrest : t.cursor.rest = bracket :: rest) :
    ∃ t', Arrives bound depth t (closing :: ·) rest t' := by
  have hs := settled_refreshed h
  obtain ⟨key, keys, hsuspended⟩ : ∃ key keys, t.refreshed.suspended = key :: keys := by
    have hdepth := hs.depth_eq
    cases hkeys : t.refreshed.suspended with
    | nil => simp [hkeys] at hdepth
    | cons key keys => exact ⟨key, keys, rfl⟩
  have htoken : t.refreshed.token bound bracket rest =
      some ({ t.refreshed with
        possible := key
        suspended := keys
        keyAllowed := false }.take 1 closing) := by
    rcases hclosing with ⟨rfl, rfl⟩ | ⟨rfl, rfl⟩ <;>
      simp [token, hs.inLine, closeFlow, hs.dropKey_eq,
        hsuspended]
  have hstarts : StartsToken bracket := by
    rcases hclosing with ⟨rfl, -⟩ | ⟨rfl, -⟩ <;> decide
  have hloose := hs.suspended_loose
  rw [hsuspended] at hloose
  have hdepth := hs.depth_eq
  rw [hsuspended] at hdepth
  have hsettled : Settled bound depth
      { t.refreshed with possible := key, suspended := keys, keyAllowed := false } :=
    { hs with
      depth_eq := Nat.succ.inj hdepth
      possible_loose := hloose key List.mem_cons_self
      suspended_loose := fun k hk => hloose k (List.mem_cons_of_mem _ hk) }
  exact ⟨_, arrives_of_token h hrest hstarts htoken (hsettled.take 1 _)
    (congrArg (List.drop 1) hrest) (Nat.le_refl _) rfl⟩

theorem length_le_escaped (text : List Char) :
    text.length ≤ (text.flatMap Document.escapeChar).length := by
  induction text with
  | nil => exact Nat.le_refl 0
  | cons c text ih =>
      have hc : 1 ≤ (Document.escapeChar c).length := by
        obtain ⟨⟨more, htext⟩, -, -⟩ | ⟨htext, -, -⟩ := escapeChar_head c <;> simp [htext]
      rw [List.flatMap_cons, List.length_append, List.length_cons]
      omega

/-- The quoted text of a string is one token, its fold, unless it cannot be read. -/
theorem step_string (h : Settled bound (depth + 1) t) (s : String)
    (hrest : t.cursor.rest = Document.quoteOnto s rest) :
    Lands bound (depth + 1) t rest
      ((folded? s.toList).map fun text => (.scalar false text :: ·)) := by
  have hs := settled_refreshed h
  obtain ⟨noted, hnoted, hsettled, hcursor, htokens⟩ := hs.exists_noteKey
  have hquoted : t.cursor.rest = '"' :: (s.toList.flatMap Document.escapeChar ++ '"' :: rest) :=
    hrest
  have hnext : (noted.cursor.skip 1).rest =
      s.toList.flatMap Document.escapeChar ++ '"' :: rest := by
    rw [hcursor]
    exact congrArg (List.drop 1) hquoted
  have hbound := h.bound_gt
  rw [hquoted] at hbound
  simp only [List.length_cons, List.length_append] at hbound
  have hlength := length_le_escaped s.toList
  have hscan : Scans [] rest (folded? s.toList)
      (scanQuoted bound false [] (noted.cursor.skip 1)) :=
    scanQuoted_escaped s.toList (by omega) hnext (Nat.add_pos_right _ Nat.one_pos)
  have htoken : t.refreshed.token bound '"' (s.toList.flatMap Document.escapeChar ++ '"' :: rest) =
      (scanQuoted bound false [] (noted.cursor.skip 1)).map fun scanned =>
        ({ noted with keyAllowed := false }.push (.scalar false scanned.1)).moveTo scanned.2 := by
    cases hscanned : scanQuoted bound false [] (noted.cursor.skip 1) <;>
      simp [token, hs.inLine, nodeStart, hnoted, hscanned]
  cases hfold : folded? s.toList with
  | none =>
      rw [hfold] at hscan
      have hnone : scanQuoted bound false [] (noted.cursor.skip 1) = none := hscan
      rw [hnone] at htoken
      exact fails_of_token h hquoted (by decide) htoken
  | some text =>
      rw [hfold] at hscan
      obtain ⟨next, hscanned, hnextRest, hnextColumn⟩ := hscan
      rw [hscanned] at htoken
      have hlengths : next.rest.length ≤ noted.cursor.rest.length := by
        rw [hnextRest, hcursor]
        change _ ≤ t.cursor.rest.length
        simp only [hquoted, List.length_cons, List.length_append]
        omega
      refine ⟨_, arrives_of_token h hquoted (by decide) htoken
        ((hsettled.withAllowed false).moved _ hlengths hnextColumn) hnextRest ?_
        (congrArg (Token.scalar false text :: ·) htokens)⟩
      simp only [List.length_append, List.length_cons]
      omega

/-- A key that is a short word. -/
def IsWord (key : String) : Prop :=
  key.toList.all isWordChar = true ∧ key.toList.length ≤ 1000

instance (key : String) : Decidable (IsWord key) := inferInstanceAs (Decidable (_ ∧ _))

theorem ne_of_isIn {p : Char → Bool} {c d : Char} (hc : p c = true) (hd : p d = false) :
    c ≠ d := by
  rintro rfl
  simp [hc] at hd

theorem escapeChar_of_isWordChar {c : Char} (hc : isWordChar c = true) :
    Document.escapeChar c = [c] := by
  have hcontrol : ¬c.toNat < 32 := by
    have hall : ∀ n < 32, isWordChar (Char.ofNat n) = false := by decide
    intro hlt
    have hfalse := hall c.toNat hlt
    rw [Char.ofNat_toNat, hc] at hfalse
    cases hfalse
  have hne (d : Char) (hd : isWordChar d = false) : c ≠ d := ne_of_isIn hc hd
  simp [Document.escapeChar, hcontrol, hne '"' rfl, hne '\\' rfl, hne '\x08' rfl, hne '\t' rfl,
    hne '\n' rfl, hne '\x0c' rfl, hne '\r' rfl]

theorem quoteOnto_word {key : String} (hkey : IsWord key) (rest : List Char) :
    Document.quoteOnto key rest = '"' :: (key.toList ++ '"' :: rest) := by
  have hchars : ∀ c ∈ key.toList, isWordChar c = true := List.all_eq_true.mp hkey.1
  have hescaped : key.toList.flatMap Document.escapeChar = key.toList := by
    generalize key.toList = word at hchars
    induction word with
    | nil => rfl
    | cons c word ih =>
        obtain ⟨hc, hword⟩ := List.forall_mem_cons.mp hchars
        rw [List.flatMap_cons, escapeChar_of_isWordChar hc, ih hword]
        rfl
  rw [Document.quoteOnto, hescaped]
  rfl

/-- The characters of a word are read up to the closing quote. -/
theorem quotedWord_word {word : List Char} (hword : ∀ c ∈ word, isWordChar c = true)
    {fuel : Nat} (hfuel : word.length < fuel) (acc : List Char) {cursor : Cursor}
    (hrest : cursor.rest = word ++ '"' :: rest) :
    quotedWord fuel false acc cursor =
      some (word.reverse ++ acc, false, cursor.skip word.length) := by
  induction word generalizing fuel acc cursor with
  | nil =>
      obtain ⟨fuel, rfl⟩ := Nat.exists_eq_add_one.mpr hfuel
      exact quotedWord_quote fuel acc hrest
  | cons c word ih =>
      obtain ⟨fuel, rfl⟩ := Nat.exists_eq_add_one.mpr (Nat.zero_lt_of_lt hfuel)
      rw [List.length_cons] at hfuel
      obtain ⟨hc, hword⟩ := List.forall_mem_cons.mp hword
      have hne (d : Char) (hd : isWordChar d = false) : c ≠ d := ne_of_isIn hc hd
      have hgap : (isBlank c || isBreak c) = false := by
        simp [isBlank, isBreak, hne ' ' rfl, hne '\t' rfl, hne '\n' rfl, hne '\r' rfl,
          hne '\x85' rfl, hne '\u2028' rfl, hne '\u2029' rfl]
      have hnext : (cursor.skip 1).rest = word ++ '"' :: rest := congrArg (List.drop 1) hrest
      have hstep : quotedWord fuel false (c :: acc) (cursor.skip 1) =
          some (word.reverse ++ c :: acc, false, (cursor.skip 1).skip word.length) :=
        ih hword (by omega) (c :: acc) hnext
      rw [quotedWord, hrest]
      simp only [List.cons_append, hgap, hne '"' rfl, hne '\\' rfl, if_false, Bool.false_eq_true]
      rw [hstep]
      simp [Cursor.skip, Nat.add_comm, Nat.add_left_comm]

theorem scanQuoted_word {word : List Char} (hword : ∀ c ∈ word, isWordChar c = true)
    {fuel : Nat} (hfuel : word.length + 1 < fuel) {cursor : Cursor} (hcolumn : 0 < cursor.column)
    (hrest : cursor.rest = word ++ '"' :: rest) :
    scanQuoted fuel false [] cursor = some (word, (cursor.skip word.length).skip 1) := by
  obtain ⟨fuel, rfl⟩ := Nat.exists_eq_add_one.mpr (Nat.zero_lt_of_lt hfuel)
  rw [scanQuoted_succ, atMarker_of_column_pos hcolumn, quotedWord_word hword (by omega) [] hrest]
  simp [afterWord, Cursor.skip, hrest]

/-- Behind a possible key a colon makes it one: the token that marks it goes in front of it. -/
theorem token_colon (h : Settled bound (depth + 1) t) {key : PossibleKey}
    (hpossible : t.possible = some key) :
    t.token bound ':' rest =
      some ({ t.insert key.position .key with
        possible := none
        keyAllowed := false }.take 1 .value) := by
  have hflow : (t.insert key.position .key).inFlow = true := h.inFlow_eq
  simp [token, h.inLine, h.inFlow_eq, valueIndicator,
    hpossible, openBlock, hflow]

/-- The state behind a quoted word, whose start was noted. -/
def behindWord (t : Tokenizer) (word : List Char) : Tokenizer :=
  ({ t with possible := some t.keyHere, keyAllowed := false }.push (.scalar false word)).moveTo
    (((t.cursor.skip 1).skip word.length).skip 1)

theorem token_word (h : Settled bound (depth + 1) t) (hallowed : t.keyAllowed = true)
    {word : List Char} (hword : ∀ c ∈ word, isWordChar c = true)
    (hrest : t.cursor.rest = '"' :: (word ++ '"' :: rest)) :
    t.token bound '"' (word ++ '"' :: rest) = some (t.behindWord word) := by
  have hbound := h.bound_gt
  simp only [hrest, List.length_cons, List.length_append] at hbound
  have hnoted : t.noteKey = some { t with possible := some t.keyHere } :=
    h.noteKey_eq.trans (congrArg some (if_pos hallowed))
  have hscan : scanQuoted bound false [] (t.cursor.skip 1) =
      some (word, ((t.cursor.skip 1).skip word.length).skip 1) :=
    scanQuoted_word hword (by omega) (Nat.add_pos_right _ Nat.one_pos)
      (congrArg (List.drop 1) hrest)
  simp [token, h.inLine, nodeStart, hnoted, hscan, behindWord]

theorem behindWord_rest {word : List Char} (hrest : t.cursor.rest = '"' :: (word ++ '"' :: rest)) :
    (t.behindWord word).cursor.rest = rest := by
  simp [behindWord, moveTo, Cursor.skip, hrest]

theorem settled_behindWord (h : Settled bound depth t) {word : List Char}
    (hrest : t.cursor.rest = '"' :: (word ++ '"' :: rest)) :
    Settled bound depth (t.behindWord word) := by
  refine (h.withKeyHere false).moved _ ?_ (Nat.add_pos_right _ Nat.one_pos)
  change (t.behindWord word).cursor.rest.length ≤ t.cursor.rest.length
  simp only [behindWord_rest hrest, hrest, List.length_cons, List.length_append]
  omega

/-- Behind a short word its start is still noted. -/
theorem refreshed_behindWord {word : List Char} (hlength : word.length ≤ 1000) :
    (t.behindWord word).refreshed.possible = some t.keyHere := by
  have hindex : ¬t.cursor.index + 1024 < t.cursor.index + 1 + word.length + 1 := by omega
  have hstale : isStale (t.behindWord word).cursor t.keyHere = false := by
    simp [isStale, behindWord, keyHere, moveTo, Cursor.skip, hindex]
  change fresh (t.behindWord word).cursor (some t.keyHere) = some t.keyHere
  simp [fresh, hstale]

/-- A key and the colon behind it are three tokens. -/
theorem step_key (h : Settled bound (depth + 1) t) (hallowed : t.keyAllowed = true)
    {key : String} (hkey : IsWord key)
    (hrest : t.cursor.rest = Document.quoteOnto key (':' :: rest)) :
    ∃ t', Arrives bound (depth + 1) t
      (fun more => .key :: .scalar false key.toList :: .value :: more) rest t' := by
  obtain ⟨hchars, hlength⟩ := hkey
  rw [quoteOnto_word ⟨hchars, hlength⟩] at hrest
  have hs := settled_refreshed h
  have hword := token_word hs hallowed (List.all_eq_true.mp hchars) hrest
  generalize hmid : t.refreshed.behindWord key.toList = mid at hword
  have hmidRest : mid.cursor.rest = ':' :: rest := hmid ▸ behindWord_rest hrest
  have hmidSettled : Settled bound (depth + 1) mid := hmid ▸ settled_behindWord hs hrest
  have hcolon := @token_colon bound depth mid.refreshed rest (settled_refreshed hmidSettled) _
    (hmid ▸ refreshed_behindWord hlength)
  have htokens : (mid.refreshed.insert t.refreshed.count .key).tokens =
      .scalar false key.toList :: .key :: t.tokens := by
    have hposition : t.count + 1 - t.count = 1 := by omega
    rw [← hmid]
    change (Token.scalar false key.toList :: t.tokens).insertIdx (t.count + 1 - t.count) .key = _
    rw [hposition]
    rfl
  have hinserted : Settled bound (depth + 1) (mid.refreshed.insert t.refreshed.count .key) := by
    refine { settled_refreshed hmidSettled with count_eq := ?_ }
    rw [htokens, ← hmid]
    exact congrArg (· + 2) h.count_eq
  refine ⟨_, ⟨⟨⟨2, ?_, fun fuel => ?_⟩, fun more => ?_⟩,
    (hinserted.withoutKey false).take 1 .value, congrArg (List.drop 1) hmidRest⟩⟩
  · change 2 + (mid.cursor.rest.drop 1).length ≤ t.cursor.rest.length
    simp only [hmidRest, hrest, List.drop_one, List.tail_cons, List.length_cons,
      List.length_append]
    omega
  · rw [run_succ h hrest (by decide), hword, Option.bind_some,
      run_succ hmidSettled hmidRest (by decide), hcolon]
    rfl
  · change (Token.value :: (mid.refreshed.insert t.refreshed.count .key).tokens).reverse ++ more = _
    simp [htokens]

/-- The characters of numbers, of truth values and of null. -/
def isPlainChar (c : Char) : Bool := c.isAlphanum || c = '.' || c = '+' || c = '-'

/-- Blanks, line breaks and the characters that have a meaning of their own in plain text. -/
def indicators : List Char :=
  [' ', '\t', '\n', '\r', '\x85', '\u2028', '\u2029', ',', '[', ']', '\x7b', '\x7d', '?', ':', '#',
    '&', '*', '!', '|', '>', '\'', '"', '%', '@', '`', '\ufeff']

theorem ne_of_mem_indicators (hc : isPlainChar c = true) : ∀ d ∈ indicators, c ≠ d := by
  have hall : indicators.all (!isPlainChar ·) = true := by decide
  exact fun d hd => ne_of_isIn hc (by simpa using List.all_eq_true.mp hall d hd)

theorem plainEnds_of_isPlainChar (hc : isPlainChar c = true) :
    plainEnds true (c :: rest) = some false := by
  have hne := ne_of_mem_indicators hc
  simp only [indicators, List.forall_mem_cons] at hne
  simp [plainEnds, isBlank, isBreak, isFlowEnd, hne]

theorem no_gap_of_isFlowEnd (hc : isFlowEnd c = true) : isBlank c = false ∧ isBreak c = false := by
  have hne (d : Char) (hd : isFlowEnd d = false) : c ≠ d := ne_of_isIn hc hd
  simp [isBlank, isBreak, hne ' ' rfl, hne '\t' rfl, hne '\n' rfl,
    hne '\r' rfl, hne '\x85' rfl, hne '\u2028' rfl, hne '\u2029' rfl]

theorem plainEnds_of_isFlowEnd (hc : isFlowEnd c = true) :
    plainEnds true (c :: rest) = some true := by
  have hcolon : c ≠ ':' := ne_of_isIn hc rfl
  simp [plainEnds, no_gap_of_isFlowEnd hc, hc, hcolon]

/-- The characters of a plain scalar are read up to the end of an item or entry. -/
theorem words_plain {text : List Char} (htext : ∀ c ∈ text, isPlainChar c = true)
    (hc : isFlowEnd c = true) {fuel : Nat} (hfuel : text.length < fuel) (acc : List Char)
    {cursor : Cursor} (hrest : cursor.rest = text ++ c :: rest) :
    plainLoop.words true fuel acc cursor =
      some (text.reverse ++ acc, cursor.skip text.length) := by
  obtain ⟨fuel, rfl⟩ := Nat.exists_eq_add_one.mpr (Nat.zero_lt_of_lt hfuel)
  induction text generalizing fuel acc cursor with
  | nil =>
      rw [plainLoop.words, hrest, List.nil_append, plainEnds_of_isFlowEnd hc]
      rfl
  | cons d text ih =>
      rw [List.length_cons] at hfuel
      obtain ⟨less, rfl⟩ : ∃ less, fuel = less + 1 := Nat.exists_eq_add_one.mpr (by omega)
      obtain ⟨hd, htext⟩ := List.forall_mem_cons.mp htext
      have hnext : (cursor.skip 1).rest = text ++ c :: rest := congrArg (List.drop 1) hrest
      have hstep := ih htext (d :: acc) hnext less (by omega)
      rw [plainLoop.words, hrest, List.cons_append, plainEnds_of_isPlainChar hd]
      dsimp only
      rw [hstep]
      simp [Cursor.skip, Nat.add_comm, Nat.add_left_comm]

theorem scanPlain_plain {text : List Char} (htext : ∀ c ∈ text, isPlainChar c = true)
    (hne : text ≠ []) (hc : isFlowEnd c = true) {fuel : Nat} (hfuel : text.length + 1 < fuel)
    (margin : Nat) {cursor : Cursor} (hcolumn : 0 < cursor.column)
    (hrest : cursor.rest = text ++ c :: rest) :
    scanPlain fuel true margin cursor = some (text, false, cursor.skip text.length) := by
  obtain ⟨fuel, rfl⟩ := Nat.exists_eq_add_one.mpr (Nat.zero_lt_of_lt hfuel)
  have hhead : (cursor.rest.head? == some '#') = false := by
    cases text with
    | nil => exact absurd rfl hne
    | cons d text =>
        have hd : d ≠ '#' := ne_of_isIn (htext d List.mem_cons_self) rfl
        simp [hrest, hd]
  have hafter : (cursor.skip text.length).rest = c :: rest := by simp [Cursor.skip, hrest]
  rw [scanPlain, plainLoop, atMarker_of_column_pos hcolumn, hhead,
    words_plain htext hc (by omega) [] hrest]
  simp [hafter, no_gap_of_isFlowEnd hc, hne, Gap.text]

/-- Behind a character of a plain scalar stands no gap. -/
theorem atGap_plain {text : List Char} (htext : ∀ c ∈ text, isPlainChar c = true)
    (hc : isFlowEnd c = true) : atGap (text ++ c :: rest) = false := by
  cases text with
  | nil => simp [atGap, no_gap_of_isFlowEnd hc]
  | cons d text =>
      have hne := ne_of_mem_indicators (htext d List.mem_cons_self)
      simp only [indicators, List.forall_mem_cons] at hne
      simp [atGap, isBlank, isBreak, hne]

theorem token_plain (h : Settled bound (depth + 1) t) (hc : isPlainChar c = true)
    (hrest : atGap rest = false) : t.token bound c rest = t.plain bound := by
  have hne := ne_of_mem_indicators hc
  simp only [indicators, List.forall_mem_cons] at hne
  have hstarts : startsPlain true c rest = true := by
    cases rest with
    | nil => cases hrest
    | cons d rest =>
        have hd : isBlank d = false ∧ isBreak d = false := by simpa [atGap] using hrest
        by_cases hminus : c = '-'
        · simp [startsPlain, hminus, hd]
        · simp [startsPlain, hminus, isBlank, isBreak, hne]
  simp [token, h.inLine, h.inFlow_eq, hstarts, hrest, hne]

/-- A plain scalar is one token. -/
theorem step_plain (h : Settled bound (depth + 1) t) {text : List Char}
    (htext : ∀ c ∈ text, isPlainChar c = true) (hne : text ≠ []) (hc : isFlowEnd c = true)
    (hrest : t.cursor.rest = text ++ c :: rest) :
    ∃ t', Arrives bound (depth + 1) t (.scalar true text :: ·) (c :: rest) t' := by
  have hs := settled_refreshed h
  obtain ⟨noted, hnoted, hsettled, hcursor, htokens⟩ := hs.exists_noteKey
  have hbound := h.bound_gt
  simp only [hrest, List.length_cons, List.length_append] at hbound
  have hscan : scanPlain bound true (noted.indent.elim 0 (· + 1)) noted.cursor =
      some (text, false, noted.cursor.skip text.length) :=
    scanPlain_plain htext hne hc (by omega) _ hsettled.column_pos (by rw [hcursor]; exact hrest)
  obtain ⟨first, more, rfl⟩ := List.exists_cons_of_ne_nil hne
  obtain ⟨hfirst, hmore⟩ := List.forall_mem_cons.mp htext
  have htoken : t.refreshed.token bound first (more ++ c :: rest) =
      some (({ noted with keyAllowed := false }.push (.scalar true (first :: more))).moveTo
        (noted.cursor.skip (first :: more).length)) := by
    rw [token_plain hs hfirst (atGap_plain hmore hc), plain, hnoted, Option.bind_eq_bind,
      Option.bind_some, hsettled.inFlow_eq]
    simp [hscan]
  have hstarts : StartsToken first := by
    have hother := ne_of_mem_indicators hfirst
    simp only [indicators, List.forall_mem_cons] at hother
    simp [StartsToken, isBlank, isBreak, hother]
  have hafter : (noted.cursor.skip (first :: more).length).rest = c :: rest := by
    rw [hcursor]
    simp [Cursor.skip, refreshed, hrest]
  have hlength : (noted.cursor.skip (first :: more).length).rest.length ≤
      noted.cursor.rest.length :=
    (List.drop_suffix _ _).length_le
  exact ⟨_, arrives_of_token h hrest hstarts htoken ((hsettled.withAllowed false).moved _ hlength
    (Nat.add_pos_left hsettled.column_pos _)) hafter (List.suffix_append more _).length_le
    (congrArg (Token.scalar true (first :: more) :: ·) htokens)⟩

end AggQuery.Yaml.Tokenizer
