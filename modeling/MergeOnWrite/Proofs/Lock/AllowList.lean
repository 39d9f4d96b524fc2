/-
Which instances an allow list names.

A list is written with semicolons between the names, and blanks around them,
as well as items with nothing in them, do not count. That a list can be read
back has two sides. No name of an instance has a blank in it, so trimming takes
nothing from a name. But a name may have a semicolon in it, and nothing in the
writing of a list sets such a semicolon apart from those between names: what
is then on the list are the parts of the name, and the instance itself is on
no list at all.

# Main statements

- `itemsIn_of_spells`: what is read from a list, however it is written.
- `not_quotes_of_spells`: no list but that of the name of two quotes is
  written as these two quotes.
- `routes_parts`: whom a list names, however it is written.
- `semicolon_unroutable`: a list of one name, which names two other instances.
-/
import MergeOnWrite.Lock.AllowList
import MergeOnWrite.Proofs.Key.Separation

namespace MergeOnWrite

namespace InstanceId

variable {i : InstanceId}

theorem noBlank (h : i.IsValid) : ∀ c ∈ i.text.toList, Text.isBlank c = false := by
  intro c hc
  have hreserved := (IdKind.of_check h).2 c hc
  unfold isReserved at hreserved
  simp only [Bool.or_eq_false_iff] at hreserved
  exact hreserved.1.2

theorem toList_ne_nil (h : i.IsValid) : i.text.toList ≠ [] := by
  intro hnil
  exact (IdKind.of_check h).1 (String.toList_eq_nil_iff.1 hnil)

end InstanceId

namespace AllowList

-- ================================================== how a list is written

/-- An item of a list: a name, or nothing, between blanks. -/
structure Item where
  front : List Char
  name : List Char
  back : List Char
  front_blank : ∀ c ∈ front, Text.isBlank c = true
  back_blank : ∀ c ∈ back, Text.isBlank c = true

def Item.chars (item : Item) : List Char :=
  item.front ++ (item.name ++ item.back)

/-- True of the texts that name instances one after another: items with
semicolons between them, of which those that are not empty are the names. -/
def Spells (text : String) (ids : List InstanceId) : Prop :=
  ∃ items : List Item,
    text.toList = [';'].intercalate (items.map Item.chars)
      ∧ (items.map Item.name).filter (· ≠ []) = ids.map (·.text.toList)

/-- True of the instances that a list names: those whose name is a part of a
name on the list, between semicolons. -/
def Names (ids : List InstanceId) (x : InstanceId) : Prop :=
  ∃ i ∈ ids, x.text.toList ∈ Text.splitChars ';' i.text.toList

instance (ids : List InstanceId) (x : InstanceId) : Decidable (Names ids x) :=
  inferInstanceAs (Decidable (∃ i ∈ ids, _))

variable {ids : List InstanceId} {text : String} {x : InstanceId}

/-- Names without a semicolon name themselves. -/
theorem names_iff_mem (h : ∀ i ∈ ids, ';' ∉ i.text.toList) :
    Names ids x ↔ x ∈ ids := by
  constructor
  · intro ⟨i, hi, hpart⟩
    rw [Text.splitChars_of_notMem (h i hi), List.mem_singleton,
      String.toList_inj, InstanceId.text_inj] at hpart
    rw [hpart]
    exact hi
  · intro hx
    refine ⟨x, hx, ?_⟩
    rw [Text.splitChars_of_notMem (h x hx)]
    exact List.mem_singleton_self _

-- ================================================== what is read

theorem semicolon_not_blank : Text.isBlank ';' = false := rfl

/-- Only the names count in what is read from a list. -/
theorem itemsIn_of_spells (h : Spells text ids) :
    Text.itemsIn ';' text.toList
      = ids.flatMap fun i => Text.itemsIn ';' i.text.toList := by
  obtain ⟨items, htext, hnames⟩ := h
  have hitem : ∀ item ∈ items, Text.itemsIn ';' item.chars
      = Text.itemsIn ';' item.name := fun item _ =>
    Text.itemsIn_blanks semicolon_not_blank item.front_blank item.back_blank _
  calc Text.itemsIn ';' text.toList
      = (items.map Item.chars).flatMap (Text.itemsIn ';') := by
        rw [htext, Text.itemsIn_intercalate]
    _ = (items.map Item.name).flatMap (Text.itemsIn ';') := by
        rw [List.flatMap_map, List.flatMap_map]
        exact congrArg List.flatten (List.map_congr_left hitem)
    _ = (ids.map (·.text.toList)).flatMap (Text.itemsIn ';') := by
        rw [← hnames, Text.flatMap_itemsIn_filter]
    _ = ids.flatMap fun i => Text.itemsIn ';' i.text.toList :=
        List.flatMap_map ..

/-- What is read from names are their parts. -/
theorem mem_itemsIn_iff (hvalid : ∀ i ∈ ids, i.IsValid) (hx : x.IsValid) :
    x.text.toList ∈ ids.flatMap (fun i => Text.itemsIn ';' i.text.toList)
      ↔ Names ids x := by
  rw [List.mem_flatMap]
  apply exists_congr
  intro i
  apply and_congr_right
  intro hi
  rw [Text.itemsIn_of_noBlank (InstanceId.noBlank (hvalid i hi)),
    List.mem_filter]
  simp [InstanceId.toList_ne_nil hx]

/-- No list but that of the name of two quotes is written as two quotes alone:
there is no semicolon in such a text, so it has one item. -/
theorem not_quotes_of_spells (hvalid : ∀ i ∈ ids, i.IsValid)
    (hquotes : ids ≠ [⟨"''"⟩]) (h : Spells text ids) :
    Text.trim text ≠ "''" := by
  obtain ⟨items, htext, hnames⟩ := h
  intro htrim
  have hchars : Text.trimChars text.toList = "''".toList := by
    rw [← htrim, Text.trim, String.toList_ofList]
  have hsemicolon : ';' ∉ text.toList := by
    obtain ⟨front, back, hfront, hback, heq⟩ := Text.exists_blanks text.toList
    rw [hchars] at heq
    rw [heq, List.mem_append, List.mem_append, not_or, not_or]
    refine ⟨?_, by decide, ?_⟩
    · intro hmem
      exact absurd (hfront _ hmem) (by decide)
    · intro hmem
      exact absurd (hback _ hmem) (by decide)
  rw [htext] at hsemicolon
  have hlength := Text.length_le_one_of_notMem hsemicolon
  cases items with
  | nil =>
      rw [htext] at hchars
      cases hchars
  | cons item rest =>
      obtain rfl : rest = [] := by
        rw [List.length_map, List.length_cons] at hlength
        exact List.eq_nil_of_length_eq_zero (by omega)
      -- so the only name of the list is the text between the blanks
      have hname : Text.trimChars item.name = "''".toList := by
        rw [← hchars, htext]
        simp [Item.chars, Text.trimChars_of_blank item.front_blank,
          Text.trimChars_append_blank item.back_blank]
      have hne : item.name ≠ [] := by
        intro hnil
        rw [hnil] at hname
        cases hname
      rw [List.map_singleton, List.filter_cons_of_pos (by simpa using hne),
        List.filter_nil] at hnames
      obtain ⟨i, rfl, hi⟩ := List.map_eq_singleton_iff.1 hnames.symm
      apply hquotes
      rw [← hi, Text.trimChars_of_noBlank (InstanceId.noBlank
        (hvalid i List.mem_cons_self)), String.toList_inj] at hname
      rw [InstanceId.text_inj.1 (show i.text = InstanceId.text ⟨"''"⟩ from hname)]

/-- A list routes whom it names, however it is written. -/
theorem versionFor_of_spells (hvalid : ∀ i ∈ ids, i.IsValid)
    (hquotes : ids ≠ [⟨"''"⟩]) (h : Spells text ids) (hx : x.IsValid) :
    (ofText text).versionFor x = if Names ids x then .v2 else .v1 := by
  have hmem : x.text ∈ (ofText text).instances ↔ Names ids x := by
    rw [ofText, if_neg (not_quotes_of_spells hvalid hquotes h), Text.items_eq,
      itemsIn_of_spells h, ← mem_itemsIn_iff hvalid hx]
    constructor
    · intro hmem
      obtain ⟨item, hitem, htext⟩ := List.mem_map.1 hmem
      rw [← htext, String.toList_ofList]
      exact hitem
    · intro hmem
      exact List.mem_map.2 ⟨_, hmem, String.ofList_toList⟩
  unfold versionFor
  by_cases hnames : Names ids x
  · rw [if_pos hnames, if_pos (hmem.2 hnames)]
  · rw [if_neg hnames, if_neg (mt hmem.1 hnames)]

/-- An instance with a semicolon in its name is on no list. -/
theorem versionFor_of_semicolon (h : ';' ∈ x.text.toList) (text : String) :
    (ofText text).versionFor x = .v1 := by
  apply if_neg
  intro hmem
  unfold ofText at hmem
  split at hmem
  · cases hmem
  · obtain ⟨item, hitem, htext⟩ := List.mem_map.1 hmem
    rw [← htext, String.toList_ofList] at h
    exact Text.notMem_of_mem_itemsIn hitem h

/-- What a list answers about instances, one after another. -/
theorem answers_queries (list : AllowList) {xs : List InstanceId}
    (h : ∀ x ∈ xs, x.IsValid) :
    list.answers (xs.map fun x => .query x.text)
      = xs.map fun x => .version (list.versionFor x) := by
  induction xs with
  | nil => rfl
  | cons x rest ih =>
      obtain ⟨hx, hrest⟩ := List.forall_mem_cons.1 h
      rw [List.map_cons, List.map_cons, answers, InstanceId.ofText_eq hx,
        ih hrest]

/-- However the names of instances are written as a list, but for the name of
two quotes alone: by the list, and after an update to it, the second version is
for the instances whose names are parts of those on the list, between
semicolons, and the first one for all others. So it is for exactly the
instances on the list if none of their names has a semicolon in it. -/
theorem routes_parts (hvalid : ∀ i ∈ ids, i.IsValid)
    (hquotes : ids ≠ [⟨"''"⟩]) (h : Spells text ids) :
    (∀ x : InstanceId, x.IsValid →
        (ofText text).versionFor x = if Names ids x then .v2 else .v1)
      ∧ (∀ (before : AllowList) (xs : List InstanceId),
        (∀ x ∈ xs, x.IsValid) →
          before.answers (.update text :: xs.map fun x => .query x.text)
            = .updated :: xs.map fun x =>
              .version (if Names ids x then .v2 else .v1))
      ∧ ((∀ i ∈ ids, ';' ∉ i.text.toList) →
        ∀ x : InstanceId, Names ids x ↔ x ∈ ids) := by
  refine ⟨fun x hx => versionFor_of_spells hvalid hquotes h hx, ?_,
    fun hsemicolon x => names_iff_mem hsemicolon⟩
  intro before xs hxs
  have hanswers : ∀ x ∈ xs, Answer.version ((ofText text).versionFor x)
      = .version (if Names ids x then .v2 else .v1) := by
    intro x hx
    rw [versionFor_of_spells hvalid hquotes h (hxs x hx)]
  rw [answers, answers_queries _ hxs, List.map_congr_left hanswers]

/-- A list of two names that is written with blanks and an empty item. -/
theorem spells_warehouses : Spells " warehouse2;; warehouse3\t"
    [⟨"warehouse2"⟩, ⟨"warehouse3"⟩] := by
  refine ⟨[⟨[' '], "warehouse2".toList, [],
      List.forall_mem_singleton.2 rfl, nofun⟩,
    ⟨[], [], [], nofun, nofun⟩,
    ⟨[' '], "warehouse3".toList, ['\t'],
      List.forall_mem_singleton.2 rfl, List.forall_mem_singleton.2 rfl⟩],
    ?_, ?_⟩
  · decide
  · decide

/-- The instances on the list are routed to the second version, and another
one to the first. -/
theorem routes_parts_warehouses :
    AllowList.answers {} (.update " warehouse2;; warehouse3\t"
        :: [InstanceId.mk "warehouse3", ⟨"warehouse1"⟩].map (.query ·.text))
      = [.updated, .version .v2, .version .v1]
    ∧ (ofText " warehouse2;; warehouse3\t").versionFor ⟨"warehouse2"⟩
      = .v2 := by
  obtain ⟨hparse, hupdate, _⟩ := routes_parts (by decide) (by decide)
    spells_warehouses
  exact ⟨hupdate {} [⟨"warehouse3"⟩, ⟨"warehouse1"⟩] (by decide),
    hparse ⟨"warehouse2"⟩ (by decide)⟩

/-- The name of an instance may have a semicolon in it. No text at all then
routes the instance to the second version, and the list of that name alone
routes two other instances to it. -/
theorem semicolon_unroutable :
    InstanceId.IsValid ⟨"a;b"⟩ ∧ Spells "a;b" [⟨"a;b"⟩]
      ∧ (∀ text, (ofText text).versionFor ⟨"a;b"⟩ = .v1)
      ∧ (ofText "a;b").versionFor ⟨"a"⟩ = .v2
      ∧ (ofText "a;b").versionFor ⟨"b"⟩ = .v2 := by
  refine ⟨by decide, ?_, ?_, by decide, by decide⟩
  · refine ⟨[⟨[], "a;b".toList, [], nofun, nofun⟩], ?_, ?_⟩
    · decide
    · decide
  · exact versionFor_of_semicolon (by decide)

end AllowList

end MergeOnWrite
