/-
Lists that are written with a separator, and the items read from them.

A text is split at its separators, the parts are trimmed, and parts of which
nothing is left are no items. So blanks do not count, neither around an item
nor around the whole text, and a text that is put together with the separator
has the items of what it is put together from.

# Main statements

- `splitChars_append_cons`: the parts on both sides of a separator.
- `of_reverse_splitChars`: what stands behind the last separator.
- `eq_of_append_cons`: what stands in front of the first separator.
- `itemsIn_intercalate`: the items of a text that is put together.
- `itemsIn_blanks`: blanks around a text.
- `itemsIn_of_noBlank`: the items of a text without blanks.
-/
import MergeOnWrite.Text.Blank

namespace MergeOnWrite.Text

variable {sep : Char}

-- ================================================== splitting

theorem splitChars_ne_nil (sep : Char) :
    ∀ cs : List Char, splitChars sep cs ≠ [] := by
  intro cs
  induction cs with
  | nil => exact List.cons_ne_nil _ _
  | cons c rest ih =>
      rw [splitChars]
      split
      · exact List.cons_ne_nil _ _
      · split
        · exact List.cons_ne_nil _ _
        · exact List.cons_ne_nil _ _

/-- A character that is no separator belongs to the first part. -/
theorem splitChars_cons_of_ne {c : Char} (h : c ≠ sep) (cs : List Char) :
    ∃ part parts, splitChars sep cs = part :: parts
      ∧ splitChars sep (c :: cs) = (c :: part) :: parts := by
  rw [splitChars, if_neg h]
  cases hparts : splitChars sep cs with
  | nil => exact absurd hparts (splitChars_ne_nil sep cs)
  | cons part parts => exact ⟨part, parts, rfl, rfl⟩

theorem splitChars_of_notMem :
    ∀ {cs : List Char}, sep ∉ cs → splitChars sep cs = [cs] := by
  intro cs
  induction cs with
  | nil => intro _; rfl
  | cons c rest ih =>
      intro h
      rw [List.mem_cons, not_or] at h
      rw [splitChars, if_neg (Ne.symm h.1), ih h.2]

/-- The parts on both sides of a separator. -/
theorem splitChars_append_cons (a b : List Char) :
    splitChars sep (a ++ sep :: b) = splitChars sep a ++ splitChars sep b := by
  induction a with
  | nil => exact if_pos rfl
  | cons c rest ih =>
      rw [List.cons_append]
      by_cases h : c = sep
      · rw [splitChars, splitChars, if_pos h, if_pos h, ih]
        rfl
      · obtain ⟨part, parts, hrest, hcons⟩ := splitChars_cons_of_ne h rest
        rw [splitChars, if_neg h, ih, hrest, hcons]
        rfl

/-- The part in front of the first separator. -/
theorem splitChars_append {cs rest : List Char} (h : sep ∉ cs) :
    splitChars sep (cs ++ sep :: rest) = cs :: splitChars sep rest := by
  rw [splitChars_append_cons, splitChars_of_notMem h]
  rfl

/-- Texts that are the same are the same in front of the first separator and
behind it. -/
theorem eq_of_append_cons {a b x y : List Char} (ha : sep ∉ a)
    (hb : sep ∉ b) (h : a ++ sep :: x = b ++ sep :: y) : a = b ∧ x = y := by
  have hsplit := congrArg (splitChars sep) h
  rw [splitChars_append ha, splitChars_append hb] at hsplit
  obtain rfl := (List.cons.inj hsplit).1
  exact ⟨rfl, (List.cons.inj (List.append_cancel_left h)).2⟩

/-- The last part is what stands behind the last separator, and the parts
before it are those of what stands in front. -/
theorem of_reverse_splitChars {cs part : List Char} {parts : List (List Char)}
    (h : (splitChars sep cs).reverse = part :: parts) :
    (parts = [] ∧ cs = part)
      ∨ ∃ front, cs = front ++ sep :: part
        ∧ (splitChars sep front).reverse = parts := by
  by_cases hmem : sep ∈ cs
  · obtain ⟨back, front, hcs, hback⟩ :=
      List.eq_append_cons_of_mem (List.mem_reverse.2 hmem)
    have hcut : cs = front.reverse ++ sep :: back.reverse := by
      rw [← List.reverse_reverse cs, hcs]
      simp
    rw [hcut, splitChars_append_cons,
      splitChars_of_notMem fun hsep => hback (List.mem_reverse.1 hsep),
      List.reverse_append] at h
    obtain ⟨rfl, rfl⟩ := List.cons.inj h
    exact .inr ⟨_, hcut, rfl⟩
  · rw [splitChars_of_notMem hmem] at h
    obtain ⟨rfl, rfl⟩ := List.cons.inj h
    exact .inl ⟨rfl, rfl⟩

/-- What stands in front of a text belongs to its first part, if there is no
separator in it. -/
theorem splitChars_prepend {front : List Char} (h : sep ∉ front)
    (cs : List Char) :
    ∃ part parts, splitChars sep cs = part :: parts
      ∧ splitChars sep (front ++ cs) = (front ++ part) :: parts := by
  induction front with
  | nil =>
      obtain ⟨part, parts, hparts⟩ :=
        List.exists_cons_of_ne_nil (splitChars_ne_nil sep cs)
      exact ⟨part, parts, hparts, hparts⟩
  | cons c rest ih =>
      rw [List.mem_cons, not_or] at h
      obtain ⟨part, parts, hparts, hrest⟩ := ih h.2
      obtain ⟨_, _, hfirst, hcons⟩ :=
        splitChars_cons_of_ne (Ne.symm h.1) (rest ++ cs)
      obtain ⟨hpart, hothers⟩ := List.cons.inj (hfirst.symm.trans hrest)
      rw [hpart, hothers] at hcons
      exact ⟨part, parts, hparts, hcons⟩

/-- And what stands behind it belongs to its last part. -/
theorem splitChars_append_of_notMem {back : List Char} (h : sep ∉ back)
    (cs : List Char) :
    ∃ parts part, splitChars sep cs = parts ++ [part]
      ∧ splitChars sep (cs ++ back) = parts ++ [part ++ back] := by
  induction cs with
  | nil => exact ⟨[], [], rfl, splitChars_of_notMem h⟩
  | cons c rest ih =>
      obtain ⟨parts, part, hrest, happend⟩ := ih
      rw [List.cons_append]
      by_cases hc : c = sep
      · rw [splitChars, splitChars, if_pos hc, if_pos hc, hrest, happend]
        exact ⟨[] :: parts, part, rfl, rfl⟩
      · rw [splitChars, splitChars, if_neg hc, if_neg hc, hrest, happend]
        cases parts with
        | nil => exact ⟨[], c :: part, rfl, rfl⟩
        | cons first others => exact ⟨(c :: first) :: others, part, rfl, rfl⟩

/-- The parts have no other characters than the text. -/
theorem mem_of_mem_splitChars {c : Char} :
    ∀ {cs part : List Char}, part ∈ splitChars sep cs → c ∈ part → c ∈ cs := by
  intro cs
  induction cs with
  | nil =>
      intro part hpart hc
      obtain rfl := List.mem_singleton.1 hpart
      exact hc
  | cons d rest ih =>
      intro part hpart hc
      by_cases hd : d = sep
      · rw [splitChars, if_pos hd] at hpart
        rcases List.mem_cons.1 hpart with rfl | hpart
        · cases hc
        · exact List.mem_cons_of_mem _ (ih hpart hc)
      · obtain ⟨first, parts, hrest, hcons⟩ := splitChars_cons_of_ne hd rest
        rw [hcons] at hpart
        rw [hrest] at ih
        rcases List.mem_cons.1 hpart with rfl | hpart
        · rcases List.mem_cons.1 hc with rfl | hc
          · exact List.mem_cons_self
          · exact List.mem_cons_of_mem _ (ih List.mem_cons_self hc)
        · exact List.mem_cons_of_mem _ (ih (List.mem_cons_of_mem _ hpart) hc)

/-- No part has a separator in it. -/
theorem notMem_of_mem_splitChars :
    ∀ {cs part : List Char}, part ∈ splitChars sep cs → sep ∉ part := by
  intro cs
  induction cs with
  | nil =>
      intro part hpart
      obtain rfl := List.mem_singleton.1 hpart
      exact List.not_mem_nil
  | cons c rest ih =>
      intro part hpart
      by_cases hc : c = sep
      · rw [splitChars, if_pos hc] at hpart
        rcases List.mem_cons.1 hpart with rfl | hpart
        · exact List.not_mem_nil
        · exact ih hpart
      · obtain ⟨first, parts, hrest, hcons⟩ := splitChars_cons_of_ne hc rest
        rw [hcons] at hpart
        rw [hrest] at ih
        rcases List.mem_cons.1 hpart with rfl | hpart
        · rw [List.mem_cons, not_or]
          exact ⟨Ne.symm hc, ih List.mem_cons_self⟩
        · exact ih (List.mem_cons_of_mem _ hpart)

/-- What is put together without a separator is of one part at most. -/
theorem length_le_one_of_notMem {parts : List (List Char)}
    (h : sep ∉ [sep].intercalate parts) : parts.length ≤ 1 := by
  cases parts with
  | nil => exact Nat.zero_le 1
  | cons part rest =>
      cases rest with
      | nil => exact Nat.le_refl 1
      | cons next others =>
          rw [List.intercalate_cons_cons, List.append_assoc,
            List.singleton_append] at h
          exact absurd (List.mem_append_right _ List.mem_cons_self) h

-- ================================================== trimming

theorem trimChars_of_blank {front : List Char}
    (h : ∀ c ∈ front, isBlank c = true) (cs : List Char) :
    trimChars (front ++ cs) = trimChars cs := by
  rw [trimChars, List.dropWhile_append_of_pos h]
  rfl

theorem trimChars_append_blank {back : List Char}
    (h : ∀ c ∈ back, isBlank c = true) (cs : List Char) :
    trimChars (cs ++ back) = trimChars cs := by
  rw [trimChars, trimChars, List.dropWhile_append]
  split
  · rename_i hempty
    have hback : (back ++ []).dropWhile isBlank = [].dropWhile isBlank :=
      List.dropWhile_append_of_pos h
    rw [List.append_nil] at hback
    rw [List.isEmpty_iff.1 hempty, hback]
    rfl
  · rw [List.reverse_append, List.dropWhile_append_of_pos
      fun c hc => h c (List.mem_reverse.1 hc)]

theorem dropWhile_of_noBlank {cs : List Char}
    (h : ∀ c ∈ cs, isBlank c = false) : cs.dropWhile isBlank = cs := by
  cases cs with
  | nil => rfl
  | cons c rest =>
      rw [List.dropWhile_cons_of_neg]
      rw [h c List.mem_cons_self]
      exact Bool.false_ne_true

theorem trimChars_of_noBlank {cs : List Char}
    (h : ∀ c ∈ cs, isBlank c = false) : trimChars cs = cs := by
  rw [trimChars, dropWhile_of_noBlank h, dropWhile_of_noBlank,
    List.reverse_reverse]
  exact fun c hc => h c (List.mem_reverse.1 hc)

/-- A text is what is left of it between blanks. -/
theorem exists_blanks (cs : List Char) :
    ∃ front back, (∀ c ∈ front, isBlank c = true)
      ∧ (∀ c ∈ back, isBlank c = true)
      ∧ cs = front ++ (trimChars cs ++ back) := by
  let rest := cs.dropWhile isBlank
  refine ⟨cs.takeWhile isBlank, (rest.reverse.takeWhile isBlank).reverse,
    ?_, ?_, ?_⟩
  · exact List.all_eq_true.1 List.all_takeWhile
  · intro c hc
    exact List.all_eq_true.1 List.all_takeWhile c (List.mem_reverse.1 hc)
  · have hrest : trimChars cs ++ (rest.reverse.takeWhile isBlank).reverse
        = rest := by
      rw [trimChars, ← List.reverse_append, List.takeWhile_append_dropWhile,
        List.reverse_reverse]
    rw [hrest, List.takeWhile_append_dropWhile]

/-- Trimming leaves no other characters. -/
theorem mem_of_mem_trimChars {c : Char} {cs : List Char}
    (h : c ∈ trimChars cs) : c ∈ cs := by
  obtain ⟨front, back, _, _, hcs⟩ := exists_blanks cs
  rw [hcs]
  exact List.mem_append_right _ (List.mem_append_left _ h)

-- ================================================== items

/-- The items of a list that is written with a separator. -/
def itemsIn (sep : Char) (cs : List Char) : List (List Char) :=
  ((splitChars sep cs).map trimChars).filter (· ≠ [])

theorem items_eq (sep : Char) (text : String) :
    items sep text = (itemsIn sep text.toList).map .ofList := rfl

@[simp] theorem itemsIn_nil : itemsIn sep [] = [] := rfl

theorem itemsIn_append_cons (a b : List Char) :
    itemsIn sep (a ++ sep :: b) = itemsIn sep a ++ itemsIn sep b := by
  rw [itemsIn, splitChars_append_cons, List.map_append, List.filter_append]
  rfl

/-- The items of a text that is put together. -/
theorem itemsIn_intercalate (parts : List (List Char)) :
    itemsIn sep ([sep].intercalate parts) = parts.flatMap (itemsIn sep) := by
  induction parts with
  | nil => rfl
  | cons part rest ih =>
      cases rest with
      | nil => simp
      | cons next others =>
          rw [List.intercalate_cons_cons, List.append_assoc,
            List.singleton_append, itemsIn_append_cons, ih]
          rfl

/-- Parts that are empty have no items. -/
theorem flatMap_itemsIn_filter (parts : List (List Char)) :
    (parts.filter (· ≠ [])).flatMap (itemsIn sep)
      = parts.flatMap (itemsIn sep) := by
  induction parts with
  | nil => rfl
  | cons part rest ih =>
      by_cases h : part = []
      · subst h
        rw [List.filter_cons_of_neg (by simp), ih]
        rfl
      · rw [List.filter_cons_of_pos (by simpa using h), List.flatMap_cons, ih]
        rfl

/-- Blanks around a text do not count. -/
theorem itemsIn_blanks (hsep : isBlank sep = false) {front back : List Char}
    (hfront : ∀ c ∈ front, isBlank c = true)
    (hback : ∀ c ∈ back, isBlank c = true) (cs : List Char) :
    itemsIn sep (front ++ (cs ++ back)) = itemsIn sep cs := by
  have hnotMem : ∀ {blanks : List Char}, (∀ c ∈ blanks, isBlank c = true) →
      sep ∉ blanks := by
    intro blanks hblanks hmem
    rw [hblanks sep hmem] at hsep
    cases hsep
  obtain ⟨first, parts, hcs, hprepend⟩ :=
    splitChars_prepend (hnotMem hfront) (cs ++ back)
  obtain ⟨others, last, hplain, happend⟩ :=
    splitChars_append_of_notMem (hnotMem hback) cs
  unfold itemsIn
  rw [hprepend, List.map_cons, trimChars_of_blank hfront, ← List.map_cons,
    ← hcs, happend, List.map_append, List.map_singleton,
    trimChars_append_blank hback, hplain, List.map_append, List.map_singleton]

/-- The items of a text without blanks are its parts. -/
theorem itemsIn_of_noBlank {cs : List Char} (h : ∀ c ∈ cs, isBlank c = false) :
    itemsIn sep cs = (splitChars sep cs).filter (· ≠ []) := by
  have htrim : ∀ part ∈ splitChars sep cs, trimChars part = id part := by
    intro part hpart
    apply trimChars_of_noBlank
    intro c hc
    exact h c (mem_of_mem_splitChars hpart hc)
  rw [itemsIn, List.map_congr_left htrim, List.map_id]

/-- No item has a separator in it. -/
theorem notMem_of_mem_itemsIn {cs item : List Char}
    (h : item ∈ itemsIn sep cs) : sep ∉ item := by
  obtain ⟨hitem, _⟩ := List.mem_filter.1 h
  obtain ⟨part, hpart, rfl⟩ := List.mem_map.1 hitem
  intro hsep
  exact notMem_of_mem_splitChars hpart (mem_of_mem_trimChars hsep)

end MergeOnWrite.Text
