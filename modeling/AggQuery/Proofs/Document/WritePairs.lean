import AggQuery.Proofs.Document.KeyPaths

/-!
# Two writes at key paths

Two writes are one where the path of one leads to the path of the other: the later write
above replaces the earlier one, and the later write below goes into the value of the earlier
one. Two writes whose paths part can be made in either order, up to the order of keys
(`Fields.insertAt_insertAt`).

## Implementation notes

Two writes below one key are two writes into the object that stands there
(`insertAt_insertAt_below`), so each law is an induction on the path that both share. What
stands on the way never matters, since a write reads no more of it than its fields.
-/

namespace AggQuery

/-- One document becomes the other when the keys of its objects change their order, at any
depth. -/
inductive Document.Reordered : Document → Document → Prop
  | refl (document : Document) : Reordered document document
  | trans {a b c : Document} (first : Reordered a b) (second : Reordered b c) : Reordered a c
  | keys {fields other : Fields} (h : fields.Perm other) :
      Reordered (.object fields) (.object other)
  | value (before : Fields) (key : String) (after : Fields) {value other : Document}
      (h : Reordered value other) :
      Reordered (.object (before ++ (key, value) :: after))
        (.object (before ++ (key, other) :: after))
  | item (before after : List Document) {item other : Document} (h : Reordered item other) :
      Reordered (.array (before ++ item :: after)) (.array (before ++ other :: after))

namespace Fields

open Document (Reordered)

/-- Where a key is set does not depend on its value. -/
theorem exists_set_eq_append (fields : Fields) (key : String) :
    ∃ before after : Fields, ∀ value, fields.set key value = before ++ (key, value) :: after := by
  induction fields with
  | nil => exact ⟨[], [], fun _ => rfl⟩
  | cons entry rest ih =>
      obtain ⟨k, old⟩ := entry
      by_cases h : k = key
      · exact ⟨[], rest, fun value => by rw [set, if_pos h, h]; rfl⟩
      · obtain ⟨before, after, hset⟩ := ih
        exact ⟨(k, old) :: before, after, fun value => by rw [set, if_neg h, hset]; rfl⟩

theorem reordered_set (fields : Fields) (key : String) {value other : Document}
    (h : Reordered value other) :
    Reordered (.object (fields.set key value)) (.object (fields.set key other)) := by
  obtain ⟨before, after, hset⟩ := fields.exists_set_eq_append key
  rw [hset, hset]
  exact .value before key after h

/-- Different keys can be set in either order, up to their own order where both are new. -/
theorem set_set_perm (fields : Fields) {key other : String} (h : key ≠ other)
    (value another : Document) :
    ((fields.set key value).set other another).Perm
      ((fields.set other another).set key value) := by
  induction fields with
  | nil =>
      simp only [set, if_neg h, if_neg h.symm]
      exact List.Perm.swap _ _ []
  | cons entry rest ih =>
      obtain ⟨k, old⟩ := entry
      by_cases hkey : k = key
      · subst hkey
        simp only [set, if_true, if_neg h]
        exact .refl _
      · by_cases hother : k = other
        · subst hother
          simp only [set, if_true, if_neg hkey]
          exact .refl _
        · simp only [set, if_neg hkey, if_neg hother]
          exact ih.cons (k, old)

theorem below_set_of_ne (fields : Fields) {key other : String} (value : Document)
    (h : other ≠ key) : (fields.set key value).below other = fields.below other := by
  rw [below, get?_set_of_ne fields value h, below]

/-- A write sets the first key of its path, to a value that is made of the fields below that
key and nothing else. -/
theorem exists_insertAt_cons (key : String) (rest : List String) (value : Document) :
    ∃ written : Fields → Document, ∀ fields : Fields,
      fields.insertAt (key :: rest) value = fields.set key (written (fields.below key)) := by
  cases rest with
  | nil => exact ⟨fun _ => value, fun _ => rfl⟩
  | cons next more =>
      exact ⟨fun inner => .object (inner.insertAt (next :: more) value), fun _ => rfl⟩

/-- Two writes below one key are two writes into the object there. -/
theorem insertAt_insertAt_below (fields : Fields) (key : String) {path other : List String}
    (hpath : path ≠ []) (hother : other ≠ []) (value another : Document) :
    (fields.insertAt (key :: path) value).insertAt (key :: other) another =
      fields.set key
        (.object (((fields.below key).insertAt path value).insertAt other another)) := by
  rw [insertAt_cons fields key hpath, insertAt_cons _ key hother, below_set_self,
    Document.fields_object, set_set]

/-- A write replaces what was written at its path or behind it. -/
theorem insertAt_overwrites (fields : Fields) {path : List String} (h : path ≠ [])
    (behind : List String) (value another : Document) :
    (fields.insertAt (path ++ behind) value).insertAt path another =
      fields.insertAt path another := by
  induction path generalizing fields with
  | nil => exact absurd rfl h
  | cons key rest ih =>
      cases rest with
      | nil =>
          obtain ⟨written, hwritten⟩ := insertAt_cons_eq_set fields key behind value
          rw [List.singleton_append, hwritten, insertAt_singleton, set_set, insertAt_singleton]
      | cons next more =>
          rw [List.cons_append, insertAt_insertAt_below fields key (by simp) (by simp),
            ih _ (by simp), insertAt_cons fields key (by simp)]

/-- A write behind a path at which a value was written is a write into that value. -/
theorem insertAt_extends (fields : Fields) {path : List String} (h : path ≠ [])
    {behind : List String} (hbehind : behind ≠ []) (value another : Document) :
    (fields.insertAt path value).insertAt (path ++ behind) another =
      fields.insertAt path (.object (value.fields.insertAt behind another)) := by
  induction path generalizing fields with
  | nil => exact absurd rfl h
  | cons key rest ih =>
      cases rest with
      | nil =>
          rw [List.singleton_append, insertAt_singleton, insertAt_cons _ key hbehind,
            below_set_self, set_set, insertAt_singleton]
      | cons next more =>
          rw [List.cons_append, insertAt_insertAt_below fields key (by simp) (by simp),
            ih _ (by simp), insertAt_cons fields key (by simp)]

/-- Writes at paths that part can be made in either order. -/
theorem insertAt_reordered (fields : Fields) {path other : List String}
    (h : Parted path other) (value another : Document) :
    Reordered (.object ((fields.insertAt path value).insertAt other another))
      (.object ((fields.insertAt other another).insertAt path value)) := by
  induction path generalizing fields other with
  | nil => exact absurd List.nil_prefix h.1
  | cons key rest ih =>
      cases other with
      | nil => exact absurd List.nil_prefix h.2
      | cons first more =>
          by_cases hkey : key = first
          · subst hkey
            have hparted : Parted rest more := (Parted.cons_iff key).mp h
            have hrest : rest ≠ [] := by
              rintro rfl
              exact hparted.1 List.nil_prefix
            have hmore : more ≠ [] := by
              rintro rfl
              exact hparted.2 List.nil_prefix
            rw [insertAt_insertAt_below fields key hrest hmore,
              insertAt_insertAt_below fields key hmore hrest]
            exact reordered_set fields key (ih _ hparted)
          · -- Neither write sees what the other one has set.
            obtain ⟨written, hwritten⟩ := exists_insertAt_cons key rest value
            obtain ⟨rewritten, hrewritten⟩ := exists_insertAt_cons first more another
            rw [hwritten, hwritten, hrewritten, hrewritten, below_set_of_ne _ _ hkey,
              below_set_of_ne _ _ (Ne.symm hkey)]
            exact .keys (set_set_perm fields hkey _ _)

/-- Two writes, whatever stands on their ways: a write above the other one or in its place is
as good as alone, writes that part can be made in either order up to the order of keys, and
a write below the other one goes into the value that was written, or into an empty object
where that value is none. -/
theorem insertAt_insertAt (fields : Fields) {path : List String} (hpath : path ≠ [])
    (other : List String) (value another : Document) :
    (path <+: other →
        (fields.insertAt other value).insertAt path another = fields.insertAt path another) ∧
      (Parted path other →
        Reordered (.object ((fields.insertAt path value).insertAt other another))
          (.object ((fields.insertAt other another).insertAt path value))) ∧
      ∀ behind, behind ≠ [] → other = path ++ behind →
        (fields.insertAt path value).insertAt other another =
          fields.insertAt path (.object (value.fields.insertAt behind another)) := by
  refine ⟨?_, fun h => insertAt_reordered fields h value another, ?_⟩
  · rintro ⟨behind, rfl⟩
    exact insertAt_overwrites fields hpath behind value another
  · rintro behind hbehind rfl
    exact insertAt_extends fields hpath hbehind value another

/-- The string at `a` gives way to an object for two writes that part there, and the null at
`c` to one for a write below it. -/
theorem insertAt_insertAt_textAtKey :
    (["a", "x"] ≠ [] ∧ Parted ["a", "x"] ["a", "y"] ∧
        Reordered
          (.object [("a", .object [("x", .boolean true), ("y", .null)]),
            ("b", .object [("c", .null)])])
          (.object [("a", .object [("y", .null), ("x", .boolean true)]),
            ("b", .object [("c", .null)])])) ∧
      ["b", "c"] ≠ [] ∧ ["b", "c"] <+: ["b", "c", "d"] ∧
        (textAtKey.insertAt ["b", "c", "d"] (.boolean true)).insertAt ["b", "c"] .null =
          textAtKey.insertAt ["b", "c"] .null ∧
        ["d"] ≠ [] ∧ ["b", "c", "d"] = ["b", "c"] ++ ["d"] ∧
        (textAtKey.insertAt ["b", "c"] (.boolean true)).insertAt ["b", "c", "d"] .null =
          textAtKey.insertAt ["b", "c"] (.object [("d", .null)]) := by
  have hparted : Parted ["a", "x"] ["a", "y"] := ⟨by decide, by decide⟩
  have hprefix : ["b", "c"] <+: ["b", "c", "d"] := ⟨["d"], rfl⟩
  obtain ⟨-, hreordered, -⟩ :=
    insertAt_insertAt textAtKey (by simp : ["a", "x"] ≠ []) ["a", "y"] (.boolean true) .null
  obtain ⟨hoverwritten, -, hextended⟩ :=
    insertAt_insertAt textAtKey (by simp : ["b", "c"] ≠ []) ["b", "c", "d"] (.boolean true) .null
  exact ⟨⟨by simp, hparted, hreordered hparted⟩, by simp, hprefix, hoverwritten hprefix,
    by simp, rfl, hextended ["d"] (by simp) rfl⟩

end Fields

end AggQuery
