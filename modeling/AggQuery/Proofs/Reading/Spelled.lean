import AggQuery.Proofs.Reading.Outline
import AggQuery.Proofs.Reading.Skipping

/-!
# Texts with an outline

A text has at most one outline (`Spells.unique`): the first character tells what kind of value
starts there, and each closing bracket is where no further element can start. What the skipper of
unknown values passes over has an outline (`exists_spells_of_skipValue`).

## Implementation notes

The skipper keeps the open brackets on a stack, while an outline is a tree. What it passes over
is therefore stated for every stack: it gets to the end of a value, or of an array or object it
is inside of, with fuel left, and goes on from there. One strong induction on the fuel covers
the three.
-/

namespace AggQuery

open Lexeme TextReader

namespace Lexeme

variable {c : Char} {text rest : List Char}

theorem skipBlanks_skipBlanks (text : List Char) :
    skipBlanks (skipBlanks text) = skipBlanks text := by
  induction text with
  | nil => rfl
  | cons c text ih =>
      cases hblank : isBlank c with
      | true => simpa [skipBlanks, hblank] using ih
      | false => rw [skipBlanks_cons hblank, skipBlanks_cons hblank]

theorem skipBlanks_of_eq_cons (h : skipBlanks text = c :: rest) :
    skipBlanks (c :: rest) = c :: rest := by
  rw [← h, skipBlanks_skipBlanks]

/-- A string that can be read can be skipped. -/
theorem skipString_of_readString {acc : List Char} {s : String}
    (h : readString acc text = .ok (s, rest)) : skipString text = .ok rest := by
  fun_induction readString acc text with
  | case2 acc after =>
      obtain rfl : after = rest := congrArg Prod.snd (Except.ok.inj h)
      rfl
  | case11 acc a b c d high hhigh _ _ a' b' c' d' after low hlow _ hlength' hlength ih =>
      simp [skipString, hlength, hlength', hhigh, hlow, ih h]
  | case15 acc a b c d after unit hunit _ _ hlength ih =>
      simp [skipString, hlength, hunit, ih h]
  | case18 acc letter after hletter c hc ih => rw [skipString_letter hc, ih h]
  | case20 acc c after hquote hbackslash hcontrol ih =>
      rw [skipString_plain after hquote hbackslash hcontrol, ih h]
  | _ => cases h

end Lexeme

namespace Outline

variable {outline : Outline} {c : Char} {text start inside rest : List Char} {first : Bool}

theorem spells_congr {other : List Char} (h : skipBlanks text = skipBlanks other) :
    outline.Spells text rest ↔ outline.Spells other rest := by
  cases outline <;> simp only [Spells, h]

/-- The text of a value starts with a character that closes no array. -/
theorem Spells.head (h : outline.Spells text rest) :
    ∃ c inside, skipBlanks text = c :: inside ∧ c ≠ ']' := by
  cases outline with
  | scalar =>
      rw [Spells] at h
      cases htext : skipBlanks text with
      | nil =>
          rw [htext] at h
          cases h
      | cons c inside =>
          refine ⟨c, inside, rfl, ?_⟩
          rintro rfl
          rw [htext] at h
          cases h
  | array items =>
      obtain ⟨inside, htext, -⟩ := h
      exact ⟨_, inside, htext, by decide⟩
  | object fields =>
      obtain ⟨inside, htext, -⟩ := h
      exact ⟨_, inside, htext, by decide⟩

theorem Spells.scalar (h : outline.Spells text rest) (htext : skipBlanks text = c :: inside)
    (harray : c ≠ '[') (hobject : c ≠ '\x7b') :
    outline = .scalar ∧ skipScalar (c :: inside) = .ok rest := by
  cases outline with
  | scalar => exact ⟨rfl, by rwa [Spells, htext] at h⟩
  | array items =>
      obtain ⟨other, hother, -⟩ := h
      rw [htext] at hother
      exact absurd (List.cons.inj hother).1 harray
  | object fields =>
      obtain ⟨other, hother, -⟩ := h
      rw [htext] at hother
      exact absurd (List.cons.inj hother).1 hobject

theorem Spells.array (h : outline.Spells text rest) (htext : skipBlanks text = '[' :: inside) :
    ∃ items, outline = .array items ∧ SpellsItems items true inside rest := by
  cases outline with
  | scalar =>
      rw [Spells, htext] at h
      cases h
  | array items =>
      obtain ⟨other, hother, hitems⟩ := h
      rw [htext] at hother
      obtain rfl := (List.cons.inj hother).2
      exact ⟨items, rfl, hitems⟩
  | object fields =>
      obtain ⟨other, hother, -⟩ := h
      rw [htext] at hother
      cases hother

theorem Spells.object (h : outline.Spells text rest)
    (htext : skipBlanks text = '\x7b' :: inside) :
    ∃ fields, outline = .object fields ∧ SpellsFields fields true inside rest := by
  cases outline with
  | scalar =>
      rw [Spells, htext] at h
      cases h
  | array items =>
      obtain ⟨other, hother, -⟩ := h
      rw [htext] at hother
      cases hother
  | object fields =>
      obtain ⟨other, hother, hfields⟩ := h
      rw [htext] at hother
      obtain rfl := (List.cons.inj hother).2
      exact ⟨fields, rfl, hfields⟩

theorem Continues.unique {other : List Char} (h : Continues first text start)
    (hother : Continues first text other) : start = other := by
  unfold Continues at h hother
  cases first with
  | true => exact Eq.trans (b := text) h hother.symm
  | false => exact (List.cons.inj (h.symm.trans hother)).2

/-- Before an element, no bracket is closed. -/
theorem Continues.ne_close (h : Continues first text start)
    (hstart : skipBlanks start ≠ c :: rest) (hc : c ≠ ',') : skipBlanks text ≠ c :: rest := by
  unfold Continues at h
  cases first with
  | true =>
      obtain rfl : start = text := h
      exact hstart
  | false =>
      rw [if_neg Bool.false_ne_true] at h
      intro htext
      exact hc (List.cons.inj (htext.symm.trans h)).1

theorem SpellsKey.unique {key other : Option String} {behind : List Char}
    (h : SpellsKey key start inside) (hother : SpellsKey other start behind) :
    key = other ∧ inside = behind := by
  obtain ⟨quoted, after, htext, rfl, hskip, hcolon⟩ := h
  obtain ⟨quoted', after', htext', rfl, hskip', hcolon'⟩ := hother
  obtain rfl := (List.cons.inj (htext.symm.trans htext')).2
  obtain rfl := Except.ok.inj (hskip.symm.trans hskip')
  exact ⟨rfl, Except.ok.inj (hcolon.symm.trans hcolon')⟩

/-- At most one outline is that of a text, and its value ends at one place. -/
def Determined (outline : Outline) : Prop :=
  ∀ ⦃other : Outline⦄ ⦃text rest behind⦄, outline.Spells text rest → other.Spells text behind →
    outline = other ∧ rest = behind

theorem SpellsItems.ne_close {item : Outline} {items : List Outline}
    (h : SpellsItems (item :: items) first text rest) (inside : List Char) :
    skipBlanks text ≠ ']' :: inside := by
  obtain ⟨start, behind, hstart, hitem, -⟩ := h
  obtain ⟨c, after, hhead, hc⟩ := hitem.head
  refine hstart.ne_close (fun hclose => hc ?_) (by decide)
  exact (List.cons.inj (hhead.symm.trans hclose)).1

theorem SpellsFields.ne_close {entry : Option String × Outline} {fields : OutlineFields}
    (h : SpellsFields (entry :: fields) first text rest) (inside : List Char) :
    skipBlanks text ≠ '\x7d' :: inside := by
  obtain ⟨start, behind, after, hstart, ⟨quoted, -, hhead, -⟩, -⟩ := h
  refine hstart.ne_close (fun hclose => ?_) (by decide)
  cases hhead.symm.trans hclose

theorem items_unique {items others : List Outline} {behind : List Char}
    (h : ∀ item ∈ items, Determined item) (hspell : SpellsItems items first text rest)
    (hother : SpellsItems others first text behind) : items = others ∧ rest = behind := by
  induction items generalizing others first text with
  | nil =>
      cases others with
      | nil => exact ⟨rfl, (List.cons.inj (hspell.symm.trans hother)).2⟩
      | cons other others => exact absurd hspell (hother.ne_close rest)
  | cons item items ih =>
      cases others with
      | nil => exact absurd hother (hspell.ne_close behind)
      | cons other others =>
          obtain ⟨hitem, hitems⟩ := List.forall_mem_cons.mp h
          obtain ⟨start, after, hstart, hvalue, hmore⟩ := hspell
          obtain ⟨start', after', hstart', hvalue', hmore'⟩ := hother
          obtain rfl := hstart.unique hstart'
          obtain ⟨rfl, rfl⟩ := hitem hvalue hvalue'
          obtain ⟨rfl, rfl⟩ := ih hitems hmore hmore'
          exact ⟨rfl, rfl⟩

theorem fields_unique {fields others : OutlineFields} {behind : List Char}
    (h : ∀ entry ∈ fields, Determined entry.2) (hspell : SpellsFields fields first text rest)
    (hother : SpellsFields others first text behind) : fields = others ∧ rest = behind := by
  induction fields generalizing others first text with
  | nil =>
      cases others with
      | nil => exact ⟨rfl, (List.cons.inj (hspell.symm.trans hother)).2⟩
      | cons other others => exact absurd hspell (hother.ne_close rest)
  | cons entry fields ih =>
      cases others with
      | nil => exact absurd hother (hspell.ne_close behind)
      | cons other others =>
          obtain ⟨hentry, hfields⟩ := List.forall_mem_cons.mp h
          obtain ⟨key, value⟩ := entry
          obtain ⟨key', value'⟩ := other
          obtain ⟨start, inside, after, hstart, hkey, hvalue, hmore⟩ := hspell
          obtain ⟨start', inside', after', hstart', hkey', hvalue', hmore'⟩ := hother
          obtain rfl := hstart.unique hstart'
          obtain ⟨rfl, rfl⟩ := hkey.unique hkey'
          obtain ⟨rfl, rfl⟩ := hentry hvalue hvalue'
          obtain ⟨rfl, rfl⟩ := ih hfields hmore hmore'
          exact ⟨rfl, rfl⟩

theorem determined (outline : Outline) : Determined outline := by
  induction outline using Outline.inductionOn with
  | scalar =>
      intro other text rest behind hspell hother
      obtain ⟨c, inside, htext, -⟩ := hspell.head
      rw [Spells, htext] at hspell
      have harray : c ≠ '[' := by
        rintro rfl
        cases hspell
      have hobject : c ≠ '\x7b' := by
        rintro rfl
        cases hspell
      obtain ⟨rfl, hskip⟩ := hother.scalar htext harray hobject
      exact ⟨rfl, Except.ok.inj (hspell.symm.trans hskip)⟩
  | array items ih =>
      intro other text rest behind hspell hother
      obtain ⟨inside, htext, hitems⟩ := hspell
      obtain ⟨others, rfl, hothers⟩ := hother.array htext
      obtain ⟨rfl, rfl⟩ := items_unique ih hitems hothers
      exact ⟨rfl, rfl⟩
  | object fields ih =>
      intro other text rest behind hspell hother
      obtain ⟨inside, htext, hfields⟩ := hspell
      obtain ⟨others, rfl, hothers⟩ := hother.object htext
      obtain ⟨rfl, rfl⟩ := fields_unique ih hfields hothers
      exact ⟨rfl, rfl⟩

/-- A text has at most one outline. -/
theorem Spells.unique {other : Outline} {behind : List Char} (h : outline.Spells text rest)
    (hother : other.Spells text behind) : outline = other ∧ rest = behind :=
  determined outline h hother

theorem OfJson.unique {other : Outline} {text : String} (h : outline.OfJson text)
    (hother : other.OfJson text) : outline = other := by
  obtain ⟨rest, hspell⟩ := h
  obtain ⟨behind, hother⟩ := hother
  exact (hspell.unique hother).1

end Outline

section Skipping

open Outline

/-- Where the skipper stands before the next element of an open bracket. -/
def stateAt (first : Bool) : SkipState := if first then .opened else .ended

variable {fuel : Nat} {brackets outer text start inside behind rest after : List Char}
  {first : Bool} {bracket c : Char}

/-- From a value on, the skipper opens a bracket or passes a scalar. -/
theorem skipFrom_value_eq_ok (h : skipFrom fuel brackets .value text = .ok after) :
    ∃ less c inside, fuel = less + 1 ∧ skipBlanks text = c :: inside ∧
      (((c = '[' ∨ c = '\x7b') ∧ skipFrom less (c :: brackets) .opened inside = .ok after) ∨
        ∃ rest, skipScalar (c :: inside) = .ok rest ∧
          skipFrom less brackets .ended rest = .ok after) := by
  cases fuel with
  | zero => cases h
  | succ less =>
      rw [skipFrom.eq_def] at h
      dsimp only at h
      rw [if_pos rfl] at h
      split at h
      · cases h
      · next c inside htext =>
          refine ⟨less, c, inside, rfl, htext, ?_⟩
          split at h
          · next hc => exact .inl ⟨hc, h⟩
          · split at h
            · cases h
            · next rest hskip => exact .inr ⟨rest, hskip, h⟩

/-- Before an element, the skipper closes the bracket, or passes the comma and, in an object, the
key and the colon. -/
theorem skipFrom_element_eq_ok
    (h : skipFrom fuel (bracket :: outer) (stateAt first) text = .ok after) :
    ∃ less, fuel = less + 1 ∧
      ((∃ c rest, skipBlanks text = c :: rest ∧
          ((c = ']' ∧ bracket = '[') ∨ (c = '\x7d' ∧ bracket = '\x7b')) ∧
          skipFrom less outer .ended rest = .ok after) ∨
        ∃ start value, Continues first text start ∧
          (if bracket = '[' then skipBlanks value = skipBlanks start
            else ∃ key, SpellsKey key start value) ∧
          skipFrom less (bracket :: outer) .value value = .ok after) := by
  have hstate : stateAt first ≠ .value := by cases first <;> decide
  cases fuel with
  | zero => cases h
  | succ less =>
      rw [skipFrom.eq_def] at h
      dsimp only at h
      rw [if_neg hstate] at h
      split at h
      · cases h
      next c rest htext =>
      refine ⟨less, rfl, ?_⟩
      split at h
      · next hclose => exact .inl ⟨c, rest, htext, hclose, h⟩
      split at h
      · cases h
      next hcomma =>
      have hbefore : ∃ start, Continues first text start ∧
          skipBlanks (if stateAt first = .ended then rest else c :: rest) = skipBlanks start := by
        cases first with
        | true => exact ⟨text, rfl, (skipBlanks_of_eq_cons htext).trans htext.symm⟩
        | false =>
            have hc : c = ',' := by simpa [stateAt] using hcomma
            exact ⟨rest, htext.trans (congrArg (· :: rest) hc), rfl⟩
      obtain ⟨start, hstart, hblanks⟩ := hbefore
      split at h
      · next harray => exact .inr ⟨start, _, hstart, by rwa [if_pos harray], h⟩
      next hobject =>
      rw [hblanks] at h
      split at h
      · cases h
      · next quoted hquoted =>
          split at h
          · cases h
          next behind hskip =>
          split at h
          · cases h
          next value hcolon =>
          have hkey : SpellsKey (keyAt quoted) start value :=
            ⟨quoted, behind, hquoted, rfl, hskip, hcolon⟩
          exact .inr ⟨start, value, hstart, by rw [if_neg hobject]; exact ⟨_, hkey⟩, h⟩
      · cases h

/-- With some fuel, the skipper passes over values, and over the rest of open arrays and
objects. -/
structure PassesOver (fuel : Nat) : Prop where
  value : ∀ {brackets text after}, skipFrom fuel brackets .value text = .ok after →
    ∃ outline rest less, less < fuel ∧ Spells outline text rest ∧
      skipFrom less brackets .ended rest = .ok after
  items : ∀ {outer first text after},
    skipFrom fuel ('[' :: outer) (stateAt first) text = .ok after →
    ∃ items rest less, less < fuel ∧ SpellsItems items first text rest ∧
      skipFrom less outer .ended rest = .ok after
  fields : ∀ {outer first text after},
    skipFrom fuel ('\x7b' :: outer) (stateAt first) text = .ok after →
    ∃ fields rest less, less < fuel ∧ SpellsFields fields first text rest ∧
      skipFrom less outer .ended rest = .ok after

theorem passes_value (h : ∀ less < fuel, PassesOver less)
    (hskip : skipFrom fuel brackets .value text = .ok after) :
    ∃ outline rest less, less < fuel ∧ Spells outline text rest ∧
      skipFrom less brackets .ended rest = .ok after := by
  obtain ⟨less, c, inside, rfl, htext, ⟨rfl | rfl, hskip⟩ | ⟨rest, hscalar, hskip⟩⟩ :=
    skipFrom_value_eq_ok hskip
  · change skipFrom less _ (stateAt true) inside = .ok after at hskip
    obtain ⟨items, rest, few, hfew, hitems, hrest⟩ := (h less (Nat.lt_succ_self less)).items hskip
    exact ⟨.array items, rest, few, Nat.lt_succ_of_lt hfew, ⟨inside, htext, hitems⟩, hrest⟩
  · change skipFrom less _ (stateAt true) inside = .ok after at hskip
    obtain ⟨fields, rest, few, hfew, hfields, hrest⟩ :=
      (h less (Nat.lt_succ_self less)).fields hskip
    exact ⟨.object fields, rest, few, Nat.lt_succ_of_lt hfew, ⟨inside, htext, hfields⟩, hrest⟩
  · refine ⟨.scalar, rest, less, Nat.lt_succ_self less, ?_, hskip⟩
    rw [Spells, htext]
    exact hscalar

theorem passes_items (h : ∀ less < fuel, PassesOver less)
    (hskip : skipFrom fuel ('[' :: outer) (stateAt first) text = .ok after) :
    ∃ items rest less, less < fuel ∧ SpellsItems items first text rest ∧
      skipFrom less outer .ended rest = .ok after := by
  obtain ⟨less, rfl, ⟨c, rest, htext, hclose, hskip⟩ | ⟨start, value, hstart, hvalue, hskip⟩⟩ :=
    skipFrom_element_eq_ok hskip
  · obtain rfl : c = ']' := by simpa using hclose
    exact ⟨[], rest, less, Nat.lt_succ_self less, htext, hskip⟩
  · rw [if_pos rfl] at hvalue
    obtain ⟨item, behind, few, hfew, hitem, hskip⟩ := (h less (Nat.lt_succ_self less)).value hskip
    change skipFrom few _ (stateAt false) behind = .ok after at hskip
    obtain ⟨items, rest, last, hlast, hitems, hrest⟩ :=
      (h few (Nat.lt_succ_of_lt hfew)).items hskip
    exact ⟨item :: items, rest, last, by omega,
      ⟨start, behind, hstart, (spells_congr hvalue).mp hitem, hitems⟩, hrest⟩

theorem passes_fields (h : ∀ less < fuel, PassesOver less)
    (hskip : skipFrom fuel ('\x7b' :: outer) (stateAt first) text = .ok after) :
    ∃ fields rest less, less < fuel ∧ SpellsFields fields first text rest ∧
      skipFrom less outer .ended rest = .ok after := by
  obtain ⟨less, rfl, ⟨c, rest, htext, hclose, hskip⟩ | ⟨start, value, hstart, hvalue, hskip⟩⟩ :=
    skipFrom_element_eq_ok hskip
  · obtain rfl : c = '\x7d' := by simpa using hclose
    exact ⟨[], rest, less, Nat.lt_succ_self less, htext, hskip⟩
  · rw [if_neg (by decide)] at hvalue
    obtain ⟨key, hkey⟩ := hvalue
    obtain ⟨outline, behind, few, hfew, houtline, hskip⟩ :=
      (h less (Nat.lt_succ_self less)).value hskip
    change skipFrom few _ (stateAt false) behind = .ok after at hskip
    obtain ⟨fields, rest, last, hlast, hfields, hrest⟩ :=
      (h few (Nat.lt_succ_of_lt hfew)).fields hskip
    exact ⟨(key, outline) :: fields, rest, last, by omega,
      ⟨start, value, behind, hstart, hkey, houtline, hfields⟩, hrest⟩

theorem passesOver (fuel : Nat) : PassesOver fuel := by
  induction fuel using Nat.strongRecOn with
  | ind fuel ih =>
      exact ⟨fun h => passes_value ih h, fun h => passes_items ih h, fun h => passes_fields ih h⟩

/-- What the skipper passes over has an outline. -/
theorem exists_spells_of_skipValue (h : skipValue text = .ok after) :
    ∃ outline : Outline, outline.Spells text after := by
  obtain ⟨outline, rest, less, -, hspell, hskip⟩ := (passesOver _).value h
  cases less with
  | zero => cases hskip
  | succ less =>
      rw [skipFrom.eq_def] at hskip
      obtain rfl := Except.ok.inj hskip
      exact ⟨outline, hspell⟩

end Skipping

end AggQuery
