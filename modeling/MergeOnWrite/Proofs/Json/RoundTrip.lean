/-
A JSON value reads back from its compact spelling.

The values that the program writes are well spelt: a number is a literal
that is read up to its end, a string a spelling that is read up to its
closing quote. Reading goes down the value as writing does. The fuel it
needs is measured by the text: every level takes one and gives up at least
one character of its own, so twice the length is enough.

# Main statements

- `readValue_render`, `readItems_render`, `readMembers_render`: a well
  spelt value is read in front of what may follow it.
- `read_render`, `ofBytes?_toBytes`: a well spelt value reads back.
- `isLiteral_numeral`, `isSpelling_escape`: whole numbers and texts are
  well spelt.
-/
import MergeOnWrite.Json.Record
import MergeOnWrite.Proofs.Text.Numeral

namespace MergeOnWrite.Json

-- ================================================== well spelt values

/-- True of what may follow a value. -/
def MayFollow (rest : List Char) : Prop :=
  ∀ c tail, rest = c :: tail → c = ',' ∨ c = ']' ∨ c = '\x7d'

/-- True of literals that are read up to their end. -/
structure IsLiteral (literal : List Char) : Prop where
  head : ∃ c tail, literal = c :: tail ∧ (c = '-' ∨ c.isDigit = true)
  read : ∀ rest, MayFollow rest →
    readNumber (literal ++ rest) = some (literal, rest)

/-- True of spellings that are read up to the closing quote. -/
def IsSpelling (spelling : List Char) : Prop :=
  ∀ rest, readString (spelling ++ '"' :: rest) = some (spelling, rest)

mutual

/-- True of values whose numbers and strings read back. -/
def IsWellSpelt : Json → Prop
  | .null | .bool _ => True
  | .number literal => IsLiteral literal
  | .string spelling => IsSpelling spelling
  | .array items => ItemsWellSpelt items
  | .object members => MembersWellSpelt members

/-- True of items that are all well spelt. -/
def ItemsWellSpelt : List Json → Prop
  | [] => True
  | item :: rest => IsWellSpelt item ∧ ItemsWellSpelt rest

/-- True of members whose names and values are all well spelt. -/
def MembersWellSpelt : List (List Char × Json) → Prop
  | [] => True
  | (name, value) :: rest =>
    IsSpelling name ∧ IsWellSpelt value ∧ MembersWellSpelt rest

end

theorem mayFollow_nil : MayFollow [] := nofun

theorem mayFollow_cons {c : Char} (h : c = ',' ∨ c = ']' ∨ c = '\x7d')
    (rest : List Char) : MayFollow (c :: rest) := by
  intro d tail heq
  rw [← (List.cons.inj heq).1]
  exact h

-- ================================================== first characters

theorem not_special_of_isDigit {c : Char} (h : c = '-' ∨ c.isDigit = true) :
    isGap c = false ∧ c ≠ 'n' ∧ c ≠ 't' ∧ c ≠ 'f' ∧ c ≠ '"' ∧ c ≠ '['
      ∧ c ≠ '\x7b' ∧ c ≠ ']' := by
  rcases h with rfl | h
  · decide
  · have hgap : isGap c = false := by
      cases hg : isGap c with
      | false => rfl
      | true =>
          simp only [isGap, Bool.or_eq_true, beq_iff_eq] at hg
          rcases hg with ((rfl | rfl) | rfl) | rfl <;> cases h
    refine ⟨hgap, ?_, ?_, ?_, ?_, ?_, ?_, ?_⟩ <;> (rintro rfl; cases h)

theorem skipGap_cons {c : Char} (h : isGap c = false) (rest : List Char) :
    skipGap (c :: rest) = c :: rest := by
  rw [skipGap, List.dropWhile_cons_of_neg]
  rw [h]
  exact Bool.false_ne_true

/-- A value starts with a character that is no blank and closes no
array. -/
theorem render_head : ∀ {value : Json}, IsWellSpelt value →
    ∃ c tail, value.render = c :: tail ∧ isGap c = false ∧ c ≠ ']' := by
  intro value h
  cases value with
  | null => exact ⟨'n', _, rfl, by decide, by decide⟩
  | bool b =>
      cases b with
      | true => exact ⟨'t', _, rfl, by decide, by decide⟩
      | false => exact ⟨'f', _, rfl, by decide, by decide⟩
  | number literal =>
      rw [IsWellSpelt] at h
      obtain ⟨c, tail, rfl, hc⟩ := h.head
      have hspecial := not_special_of_isDigit hc
      exact ⟨c, tail, by rw [render], hspecial.1, hspecial.2.2.2.2.2.2.2⟩
  | string spelling =>
      exact ⟨'"', _, by rw [render, List.cons_append], by decide, by decide⟩
  | array items =>
      exact ⟨'[', _, by rw [render, List.cons_append], by decide, by decide⟩
  | object members =>
      exact ⟨'\x7b', _, by rw [render, List.cons_append], by decide, by decide⟩

theorem renderItems_head {item : Json} (h : IsWellSpelt item)
    (others : List Json) : ∃ c tail,
      renderItems (item :: others) = c :: tail ∧ isGap c = false ∧ c ≠ ']' := by
  obtain ⟨c, tail, hrender, hc⟩ := render_head h
  cases others with
  | nil => exact ⟨c, tail, by rw [renderItems, hrender], hc⟩
  | cons next others =>
      refine ⟨c, tail ++ ',' :: renderItems (next :: others), ?_, hc⟩
      rw [renderItems, hrender, List.cons_append]
      exact List.cons_ne_nil _ _

theorem renderMembers_head (member : List Char × Json)
    (others : List (List Char × Json)) :
    ∃ tail, renderMembers (member :: others) = '"' :: tail := by
  obtain ⟨name, value⟩ := member
  cases others with
  | nil => exact ⟨_, by rw [renderMembers]; rfl⟩
  | cons next others =>
      exact ⟨_, by rw [renderMembers]; rfl; exact List.cons_ne_nil _ _⟩

theorem renderItems_cons_cons (item next : Json) (others : List Json) :
    renderItems (item :: next :: others)
      = item.render ++ ',' :: renderItems (next :: others) := by
  rw [renderItems]
  exact List.cons_ne_nil _ _

theorem renderMembers_single (name : List Char) (value : Json) :
    renderMembers [(name, value)]
      = '"' :: (name ++ '"' :: ':' :: value.render) := by
  rw [renderMembers]
  rfl

theorem renderMembers_cons_cons (name : List Char) (value : Json)
    (next : List Char × Json) (others : List (List Char × Json)) :
    renderMembers ((name, value) :: next :: others)
      = '"' :: (name ++ '"' :: ':' ::
          (value.render ++ ',' :: renderMembers (next :: others))) := by
  rw [renderMembers]
  · simp only [List.cons_append, List.append_assoc]
  · exact List.cons_ne_nil _ _

-- ================================================== reading back

theorem readValue_number {literal rest : List Char} {fuel : Nat}
    (h : IsLiteral literal) (hrest : MayFollow rest) :
    readValue (fuel + 1) (literal ++ rest) = some (.number literal, rest) := by
  obtain ⟨c, tail, rfl, hc⟩ := h.head
  obtain ⟨hgap, hn, ht, hf, hq, ha, ho, -⟩ := not_special_of_isDigit hc
  have hread := h.read rest hrest
  rw [List.cons_append] at hread ⊢
  rw [readValue, skipGap_cons hgap]
  split
  all_goals first
    | (rename_i heq; exact absurd (List.cons.inj heq).1 (by assumption))
    | (rw [hread]; rfl)

/-- The name of a member is read up to its colon. -/
theorem readMembers_name {name : List Char} (h : IsSpelling name)
    (fuel : Nat) (rest : List Char) :
    readMembers (fuel + 1) ('"' :: (name ++ '"' :: ':' :: rest)) = (do
      let (value, rest) ← readValue fuel rest
      match skipGap rest with
      | ',' :: rest => do
        let (members, rest) ← readMembers fuel rest
        return ((name, value) :: members, rest)
      | '\x7d' :: rest => some ([(name, value)], rest)
      | _ => none) := by
  have hcolon : skipGap (':' :: rest) = ':' :: rest :=
    skipGap_cons (by decide) rest
  rw [readMembers, skipGap_cons (by decide)]
  show (readString (name ++ '"' :: ':' :: rest)).bind _ = _
  rw [h (':' :: rest), Option.bind_some]
  dsimp only
  rw [hcolon]
  rfl

mutual

/-- A well spelt value is read in front of what may follow it. -/
theorem readValue_render : ∀ (value : Json) {fuel : Nat} {rest : List Char},
    IsWellSpelt value → MayFollow rest → 2 * value.render.length ≤ fuel →
      readValue fuel (value.render ++ rest) = some (value, rest)
  | .null, fuel + 1, rest, _, _, _ => by
      rw [render, readValue]
      rfl
  | .bool true, fuel + 1, rest, _, _, _ => by
      rw [render, readValue]
      rfl
  | .bool false, fuel + 1, rest, _, _, _ => by
      rw [render, readValue]
      rfl
  | .number literal, fuel + 1, rest, h, hrest, _ => by
      rw [IsWellSpelt] at h
      rw [render]
      exact readValue_number h hrest
  | .string spelling, fuel + 1, rest, h, _, _ => by
      rw [IsWellSpelt] at h
      rw [render, List.append_assoc, List.cons_append, readValue,
        skipGap_cons (by decide)]
      show (do
        let (spelling, rest) ← readString (spelling ++ '"' :: rest)
        return (Json.string spelling, rest)) = _
      rw [h rest]
      rfl
  | .array items, fuel + 1, rest, h, _, hfuel => by
      rw [IsWellSpelt] at h
      rw [render, List.length_append, List.length_cons] at hfuel
      rw [render, List.append_assoc, List.cons_append, readValue,
        skipGap_cons (by decide)]
      cases items with
      | nil => rfl
      | cons item others =>
          have hitems := readItems_render item others h
            (show 2 * (renderItems (item :: others)).length + 1 ≤ fuel by
              simp only [List.length_cons, List.length_nil] at hfuel
              omega) rest
          obtain ⟨c, tail, hhead, hgap, hc⟩ := renderItems_head h.1 others
          rw [hhead, List.cons_append] at hitems ⊢
          simp only [List.cons_append, List.nil_append, skipGap_cons hgap]
          split
          · rename_i heq
            exact absurd (List.cons.inj heq).1 hc
          · rw [hitems]
            rfl
  | .object members, fuel + 1, rest, h, _, hfuel => by
      rw [IsWellSpelt] at h
      rw [render, List.length_append, List.length_cons] at hfuel
      rw [render, List.append_assoc, List.cons_append, readValue,
        skipGap_cons (by decide)]
      cases members with
      | nil => rfl
      | cons member others =>
          obtain ⟨name, value⟩ := member
          have hmembers := readMembers_render name value others h
            (show 2 * (renderMembers ((name, value) :: others)).length + 1
                ≤ fuel by
              simp only [List.length_cons, List.length_nil] at hfuel
              omega) rest
          obtain ⟨tail, hhead⟩ := renderMembers_head (name, value) others
          rw [hhead, List.cons_append] at hmembers ⊢
          simp only [List.cons_append, List.nil_append,
            skipGap_cons (show isGap '"' = false by decide)]
          split
          · rename_i heq
            exact absurd (List.cons.inj heq).1 (by decide)
          · rw [hmembers]
            rfl
  | value, 0, rest, h, _, hfuel => by
      obtain ⟨c, tail, hrender, -⟩ := render_head h
      rw [hrender, List.length_cons] at hfuel
      omega

/-- Well spelt items are read up to the bracket that closes them. -/
theorem readItems_render : ∀ (item : Json) (others : List Json) {fuel : Nat},
    ItemsWellSpelt (item :: others) →
    2 * (renderItems (item :: others)).length + 1 ≤ fuel → ∀ rest : List Char,
      readItems fuel (renderItems (item :: others) ++ ']' :: rest)
        = some (item :: others, rest)
  | item, [], fuel + 1, h, hfuel, rest => by
      rw [renderItems] at hfuel ⊢
      have hvalue := readValue_render item h.1
        (mayFollow_cons (c := ']') (by simp) rest) (show _ ≤ fuel by omega)
      rw [readItems, hvalue]
      rfl
  | item, next :: others, fuel + 1, h, hfuel, rest => by
      rw [renderItems_cons_cons, List.length_append, List.length_cons] at hfuel
      have hvalue := readValue_render item h.1
        (mayFollow_cons (c := ',') (by simp)
          (renderItems (next :: others) ++ ']' :: rest))
        (show _ ≤ fuel by omega)
      have hitems := readItems_render next others h.2
        (show _ ≤ fuel by omega) rest
      rw [renderItems_cons_cons, List.append_assoc, List.cons_append,
        readItems, hvalue]
      show (readItems fuel (renderItems (next :: others) ++ ']' :: rest)).bind
        _ = _
      rw [hitems]
      rfl
  | _, _, 0, _, hfuel, _ => by omega

/-- Well spelt members are read up to the brace that closes them. -/
theorem readMembers_render : ∀ (name : List Char) (value : Json)
    (others : List (List Char × Json)) {fuel : Nat},
    MembersWellSpelt ((name, value) :: others) →
    2 * (renderMembers ((name, value) :: others)).length + 1 ≤ fuel →
    ∀ rest : List Char,
      readMembers fuel (renderMembers ((name, value) :: others)
          ++ '\x7d' :: rest)
        = some ((name, value) :: others, rest)
  | name, value, [], fuel + 1, h, hfuel, rest => by
      rw [renderMembers_single] at hfuel ⊢
      simp only [List.length_cons, List.length_append] at hfuel
      have hvalue := readValue_render value h.2.1
        (mayFollow_cons (c := '\x7d') (by simp) rest)
        (show _ ≤ fuel by omega)
      rw [List.cons_append, List.append_assoc, List.cons_append,
        List.cons_append, readMembers_name h.1, hvalue]
      rfl
  | name, value, (next, nextValue) :: others, fuel + 1, h, hfuel, rest => by
      rw [renderMembers_cons_cons] at hfuel ⊢
      simp only [List.length_cons, List.length_append] at hfuel
      have hvalue := readValue_render value h.2.1
        (mayFollow_cons (c := ',') (by simp)
          (renderMembers ((next, nextValue) :: others) ++ '\x7d' :: rest))
        (show _ ≤ fuel by omega)
      have hmembers := readMembers_render next nextValue others h.2.2
        (show _ ≤ fuel by omega) rest
      rw [List.cons_append, List.append_assoc, List.cons_append,
        List.cons_append, List.append_assoc, List.cons_append,
        readMembers_name h.1, hvalue]
      show (readMembers fuel (renderMembers ((next, nextValue) :: others)
        ++ '\x7d' :: rest)).bind _ = _
      rw [hmembers]
      rfl
  | _, _, _, 0, _, hfuel, _ => by omega

end

-- ================================================== whole texts

/-- A well spelt value reads back from its spelling. -/
theorem read_render {value : Json} (h : IsWellSpelt value) :
    read value.render = some value := by
  have hvalue := readValue_render value h mayFollow_nil
    (show _ ≤ 2 * value.render.length + 2 by omega)
  rw [List.append_nil] at hvalue
  rw [read, hvalue]
  rfl

theorem ofBytes?_toBytes {value : Json} (h : IsWellSpelt value) :
    ofBytes? value.toBytes = some value := by
  rw [ofBytes?, toBytes, Bytes.toText?_ofText]
  show read (String.ofList value.render).toList = _
  rw [String.toList_ofList, read_render h]

-- ================================================== whole numbers

theorem readDigits_append {digits rest : List Char}
    (h : ∀ c ∈ digits, c.isDigit = true) (hrest : MayFollow rest) :
    readDigits (digits ++ rest) = (digits, rest) := by
  have hstop : rest.takeWhile Char.isDigit = [] ∧
      rest.dropWhile Char.isDigit = rest := by
    cases rest with
    | nil => exact ⟨rfl, rfl⟩
    | cons c tail =>
        rcases hrest c tail rfl with rfl | rfl | rfl <;> exact ⟨rfl, rfl⟩
  rw [readDigits, List.takeWhile_append_of_pos h,
    List.dropWhile_append_of_pos h, hstop.1, hstop.2, List.append_nil]

/-- What may follow a value starts no fraction and no exponent. -/
theorem readFraction_of_mayFollow {rest : List Char} (h : MayFollow rest) :
    readFraction rest = some ([], rest) ∧ readExponent rest = some ([], rest) := by
  cases rest with
  | nil => exact ⟨rfl, rfl⟩
  | cons c tail =>
      rcases h c tail rfl with rfl | rfl | rfl <;> exact ⟨rfl, rfl⟩

/-- The digits in front of a point are those of a whole number. -/
theorem readWhole_toDigits (n : Nat) {rest : List Char}
    (hrest : MayFollow rest) :
    readWhole (Nat.toDigits 10 n ++ rest) = some (Nat.toDigits 10 n, rest) := by
  rcases Nat.eq_zero_or_pos n with rfl | hpos
  · rfl
  · obtain ⟨c, tail, hdigits, hc⟩ := Text.toDigits_head hpos
    have hread := readDigits_append
      (fun c hc => Text.isDigit_of_mem_toDigits (n := n) hc) hrest
    rw [hdigits, List.cons_append] at hread ⊢
    rw [readWhole]
    · rw [hread]
    · rintro rest heq
      exact hc (List.cons.inj heq).1

theorem numeral_head (n : Int) : ∃ c tail,
    Text.numeral n = c :: tail ∧ (c = '-' ∨ c.isDigit = true) := by
  rw [Text.numeral]
  split
  · exact ⟨'-', _, rfl, .inl rfl⟩
  · obtain ⟨c, tail, hdigits⟩ := List.exists_cons_of_ne_nil
      (Nat.toDigits_ne_nil (n := n.natAbs) (b := 10))
    exact ⟨c, tail, hdigits, .inr (Text.isDigit_of_mem_toDigits
      (n := n.natAbs) (by rw [hdigits]; exact List.mem_cons_self))⟩

theorem ne_sign_of_isDigit {c : Char} (h : c.isDigit = true) : c ≠ '-' := by
  rintro rfl
  cases h

theorem isLiteral_numeral (n : Int) : IsLiteral (Text.numeral n) := by
  refine ⟨numeral_head n, fun rest hrest => ?_⟩
  have hwhole := readWhole_toDigits n.natAbs hrest
  obtain ⟨hfraction, hexponent⟩ := readFraction_of_mayFollow hrest
  rw [Text.numeral]
  split
  · rw [List.cons_append, readNumber]
    show (readWhole (Nat.toDigits 10 n.natAbs ++ rest)).bind _ = _
    rw [hwhole, Option.bind_some]
    show (readFraction rest).bind _ = _
    rw [hfraction, Option.bind_some]
    show (readExponent rest).bind _ = _
    rw [hexponent, Option.bind_some]
    simp
  · obtain ⟨c, tail, hdigits⟩ := List.exists_cons_of_ne_nil
      (Nat.toDigits_ne_nil (n := n.natAbs) (b := 10))
    have hc : c ≠ '-' := ne_sign_of_isDigit (Text.isDigit_of_mem_toDigits
      (n := n.natAbs) (by rw [hdigits]; exact List.mem_cons_self))
    rw [hdigits, List.cons_append] at hwhole ⊢
    rw [readNumber]
    · show (readWhole (c :: (tail ++ rest))).bind _ = _
      rw [hwhole, Option.bind_some]
      show (readFraction rest).bind _ = _
      rw [hfraction, Option.bind_some]
      show (readExponent rest).bind _ = _
      rw [hexponent, Option.bind_some]
      simp
    · rintro _ heq
      exact hc (List.cons.inj heq).1

theorem integerLiteral?_numeral (n : Int) :
    integerLiteral? (Text.numeral n) = some n := by
  have hall : (Nat.toDigits 10 n.natAbs).all Char.isDigit = true :=
    List.all_eq_true.2 fun c hc => Text.isDigit_of_mem_toDigits hc
  have hnil : Nat.toDigits 10 n.natAbs ≠ [] := Nat.toDigits_ne_nil
  rw [Text.numeral]
  split
  · have hzero : Nat.toDigits 10 n.natAbs ≠ ['0'] := by
      obtain ⟨c, tail, hdigits, hc⟩ :=
        Text.toDigits_head (n := n.natAbs) (by omega)
      rw [hdigits]
      exact fun heq => hc (List.cons.inj heq).1
    rw [integerLiteral?, hall, decide_eq_true hzero, decide_eq_true hnil,
      Nat.ofDigitChars_ten_toDigits]
    show some (-(n.natAbs : Int)) = _
    congr 1
    omega
  · rw [integerLiteral?, hall, decide_eq_true hnil,
      Nat.ofDigitChars_ten_toDigits]
    · show some (n.natAbs : Int) = _
      congr 1
      omega
    · intro digits heq
      have hc : '-' ∈ Nat.toDigits 10 n.natAbs := by
        rw [heq]
        exact List.mem_cons_self
      exact ne_sign_of_isDigit (Text.isDigit_of_mem_toDigits hc) rfl

-- ================================================== texts

theorem readString_simpleEscape {e c : Char} (h : simpleEscape? e = some c)
    (rest : List Char) :
    readString (['\\', e] ++ rest) = (readString rest).map
      fun (spelling, after) => (['\\', e] ++ spelling, after) := by
  have hu : e ≠ 'u' := by
    rintro rfl
    cases h
  show readString ('\\' :: e :: rest) = _
  rw [readString, h]
  · cases readString rest <;> rfl
  · intro _ _ _ _ _ he
    exact absurd he hu

theorem readString_escapeChar_append (c : Char) (rest : List Char) :
    readString (escapeChar c ++ rest)
      = (readString rest).map fun (spelling, after) =>
          (escapeChar c ++ spelling, after) := by
  rcases escapeChar_cases c with ⟨e, he, heq⟩ | ⟨hlow, heq⟩
    | ⟨hlow, hquote, hback, heq⟩
  · rw [heq]
    exact readString_simpleEscape he rest
  · rw [heq]
    show readString ('\\' :: 'u' :: '0' :: '0' :: _ :: _ :: rest) = _
    rw [readString, hexUnit?_digitChar c.toNat hlow]
    cases readString rest <;> rfl
  · rw [heq, List.singleton_append, readString]
    · rw [if_neg (fun h => h.elim hlow hback)]
      cases readString rest <;> rfl
    · exact hquote
    · rintro _ _ _ _ _ h
      exact absurd h hback
    · rintro _ _ h
      exact absurd h hback

/-- A text is written as a spelling. -/
theorem isSpelling_escape (cs : List Char) : IsSpelling (escape cs) := by
  intro rest
  induction cs with
  | nil => rfl
  | cons c cs ih =>
      rw [escape, List.flatMap_cons, List.append_assoc,
        readString_escapeChar_append, show cs.flatMap escapeChar = escape cs
        from rfl, ih]
      rfl

end MergeOnWrite.Json
